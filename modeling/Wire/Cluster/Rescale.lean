import Wire.Planner.Rescale

/-!
# Rescaling keyed state

A new task fetches the snapshots of the old tasks that its parts name (`assembleRescaleState`), and
each of its operators then copies, from every one of them, the entries of the part's key groups into
an empty store (`restoreKeyGroupRanges`).  A key begins with its key group in two bytes, so the
entries of a range of key groups are those between two bounds in the order of the bytes.

**Rescaling neither loses nor duplicates an entry** (`rescale_exact`): an entry is in the store of a
new task exactly if an old task of the same operator held it for a key group that it owned and that
the new task now owns, and every such key group has one new owner.

The descriptors include both ends of a range and the stores leave out the second; `uint16` is exact
between them, since a savepoint has at most 32768 key groups.
-/

namespace Wire.Cluster.Rescale

open Guard Tiling List Option BigEndian
open Wire.KeyGroup (KeyGroupRange uint16 maxKeyGroups)
open Wire.Planner

/-! ## Stores -/

abbrev Key := List UInt8

/-- A Pebble database, as an ordered map. -/
abbrev Store := Key → Option (List UInt8)

/-- `SnapshotHandle`, with what its files hold. -/
structure SnapshotHandle where
  checkpointID : ℕ
  store : Store

/-- What a snapshot holds for one operator. -/
inductive OperatorData where
  | empty
  /-- Bytes that are not a handle. -/
  | bytes
  | handle (h : SnapshotHandle)

def OperatorData.handle? : OperatorData → Option SnapshotHandle
  | .handle h => some h
  | _ => none

/-- `len(data) == 0`. -/
def OperatorData.isEmpty : OperatorData → Bool
  | .empty => true
  | _ => false

/-- `TaskCheckpoint`. -/
structure TaskCheckpoint where
  taskID : String
  checkpointID : ℕ
  epochID : ℕ
  hasSource : Bool
  source : OperatorData
  operators : List OperatorData
  stateHandleIndexes : List ℤ

/-- The data of an operator; the source has the index `-1`. -/
def TaskCheckpoint.data (s : TaskCheckpoint) (index : ℤ) : OperatorData :=
  if index = -1 then s.source else s.operators.getD index.toNat .empty

/-- `KeyGroupSnapshot`. -/
structure KeyGroupSnapshot where
  groups : KeyGroupRange
  snapshot : SnapshotHandle

/-- `OperatorRescaleState`. -/
structure OperatorRescaleState where
  operatorIndex : ℤ
  assigned : KeyGroupRange
  parts : List KeyGroupSnapshot

inductive Error where
  | identity
  | keyGroups (e : KeyGroup.Error)
  | assignment
  | coverage
  | incompleteCoverage
  | fetch
  | topology
  | stateHandle (index : ℤ)
  | inconsistentType (index : ℤ)
  | opaqueState (index : ℤ)
  | decode
  | range
  | snapshots
  | uncovered

/-! ## Restoring -/

/-- The key is between the bounds of an iterator over the key groups. -/
def InBounds (groups : KeyGroupRange) (key : Key) : Prop :=
  encode 2 groups.start ≤ key ∧ key < encode 2 groups.stop

instance (groups : KeyGroupRange) (key : Key) : Decidable (InBounds groups key) :=
  inferInstanceAs (Decidable (_ ∧ _))

/-- `VisitKeyGroupRange` with `target.Put`. -/
def visitKeyGroupRange (groups : KeyGroupRange) (source target : Store) : Except Error Store := do
  require (groups.start < groups.stop ∧ (groups.stop : ℤ) ≤ maxKeyGroups) .range
  return fun key => if InBounds groups key then (source key).or (target key) else target key

/-- One round of the loop of `RestoreKeyGroupRanges` over the sorted parts. -/
def nextPart (assigned : KeyGroupRange) (checkpoint : ℕ) (next : ℤ) (part : KeyGroupSnapshot) :
    Except Error ℤ := do
  require (part.groups.start = next ∧ next < part.groups.stop ∧
    part.groups.stop ≤ assigned.stop ∧ part.snapshot.checkpointID = checkpoint ∧ checkpoint ≠ 0)
    .snapshots
  return part.groups.stop

/-- `RestoreKeyGroupRanges`, when no call of the system fails. -/
def restoreKeyGroupRanges (assigned : KeyGroupRange) (parts : List KeyGroupSnapshot) :
    Except Error Store := do
  require (assigned.start < assigned.stop ∧ (assigned.stop : ℤ) ≤ maxKeyGroups ∧ 0 < parts.length)
    .range
  let ordered := parts.insertionSort fun p q => p.groups.start ≤ q.groups.start
  let checkpoint := (ordered.head?.map fun p => p.snapshot.checkpointID).getD 0
  let next ← ordered.foldlM (nextPart assigned checkpoint) assigned.start
  require (next = assigned.stop) .uncovered
  ordered.foldlM (fun target part => visitKeyGroupRange part.groups part.snapshot.store target)
    fun _ => none

/-! ## Assembling -/

/-- `rpc.RescaleRestoreDescriptor`. -/
structure RescaleRestoreDescriptor where
  checkpointID : ℕ
  epochID : ℕ
  numKeyGroups : ℤ
  parts : List RescaleStatePart

/-- `ValidateStateHandles`; both types of backend are known. -/
def TaskCheckpoint.validateStateHandles (s : TaskCheckpoint) : Except Error Unit := do
  require s.stateHandleIndexes.Nodup (.stateHandle 0)
  forM s.stateHandleIndexes fun (index : ℤ) => do
    require (-1 ≤ index ∧ index < s.operators.length ∧ (index = -1 → s.hasSource = true))
      (.stateHandle index)
    let handle ← demand (s.data index).handle? .decode
    require (handle.checkpointID = s.checkpointID) (.stateHandle index)

def hasSource (desc : TaskDescriptor) : Bool :=
  desc.operatorChain.any fun op => op.type = .source

def operatorCount (desc : TaskDescriptor) : ℕ :=
  desc.operatorChain.countP fun op => op.type ≠ .source

/-- The operators of a task, as the loop counts them. -/
def operatorIndexes (desc : TaskDescriptor) : List ℤ :=
  (if hasSource desc then [-1] else []) ++ (range (operatorCount desc)).map Int.ofNat

/-- Fetch and check the snapshot of a part. -/
def fetchPart (desc : TaskDescriptor) (restore : RescaleRestoreDescriptor)
    (fetch : String → Option TaskCheckpoint) (part : RescaleStatePart) :
    Except Error (RescaleStatePart × TaskCheckpoint) := do
  let snapshot ← demand (fetch part.sourceTaskID) .fetch
  require (snapshot.taskID = part.sourceTaskID ∧ snapshot.checkpointID = restore.checkpointID ∧
    snapshot.epochID = restore.epochID ∧ snapshot.hasSource = hasSource desc ∧
    snapshot.operators.length = operatorCount desc) .topology
  snapshot.validateStateHandles
  return (part, snapshot)

/-- The range of a part for the stores. -/
def RescaleStatePart.range (part : RescaleStatePart) : KeyGroupRange :=
  ⟨uint16 part.groups.start.toNat, uint16 (part.groups.stop + 1).toNat⟩

/-- What the loop over the parts makes of one operator. -/
def assembleOperator (assigned : KeyGroupRange)
    (snapshots : List (RescaleStatePart × TaskCheckpoint))
    (index : ℤ) : Except Error (Option OperatorRescaleState) := do
  let typed := snapshots.head?.any fun x => x.2.stateHandleIndexes.contains index
  forM snapshots fun x =>
    require (x.2.stateHandleIndexes.contains index = typed) (.inconsistentType index)
  if typed then do
    let parts ← snapshots.mapM fun x => do
      let handle ← demand (x.2.data index).handle? .decode
      return { groups := RescaleStatePart.range x.1, snapshot := handle }
    return some { operatorIndex := index, assigned, parts }
  else do
    forM snapshots fun x => require ((x.2.data index).isEmpty = true) (.opaqueState index)
    return none

/-- `assembleRescaleState`.  The source goes over the parts and then over the operators; the
operators do not depend on one another, so they are taken one after another here. -/
def assembleRescaleState (desc : TaskDescriptor) (restore : RescaleRestoreDescriptor)
    (fetch : String → Option TaskCheckpoint) : Except Error (List OperatorRescaleState) := do
  require (restore.checkpointID ≠ 0 ∧ restore.epochID ≠ 0 ∧
    restore.numKeyGroups = desc.numKeyGroups) .identity
  (KeyGroup.validate desc.numKeyGroups desc.parallelism).mapError .keyGroups
  require (desc.keyGroup.Within desc.numKeyGroups) .assignment
  let parts := restore.parts.insertionSort fun p q => p.groups.start ≤ q.groups.start
  let next ← parts.foldlM (fun next part => do
    require (part.sourceTaskID ≠ "" ∧ part.replicaAddress ≠ "" ∧ part.groups.start = next ∧
      part.groups.start ≤ part.groups.stop ∧ part.groups.stop ≤ desc.keyGroup.stop) .coverage
    return part.groups.stop + 1) desc.keyGroup.start
  require (next = desc.keyGroup.stop + 1) .incompleteCoverage
  let snapshots ← parts.mapM (fetchPart desc restore fetch)
  let assigned := ⟨uint16 desc.keyGroup.start.toNat, uint16 (desc.keyGroup.stop + 1).toNat⟩
  let states ← (operatorIndexes desc).mapM (assembleOperator assigned snapshots)
  return states.filterMap id

/-- The store of an operator after its task has assembled and restored its state. -/
def restored (desc : TaskDescriptor) (restore : RescaleRestoreDescriptor)
    (fetch : String → Option TaskCheckpoint) (index : ℤ) : Except Error Store := do
  let states ← assembleRescaleState desc restore fetch
  match states.find? fun state => state.operatorIndex = index with
  | none => return fun _ => none
  | some state => restoreKeyGroupRanges state.assigned state.parts

/-! ## What is restored -/

section Restore

variable {groups assigned : KeyGroupRange} {source target store : Store} {key rest : Key} {g : ℕ}
  {v : List UInt8} {parts : List KeyGroupSnapshot}

/-- The key with its key group in front. -/
def groupKey (g : ℕ) (rest : Key) : Key := encode 2 g ++ rest

/-- **The bounds of the iterator are those of the key groups.** -/
theorem inBounds_groupKey (hg : g < 2 ^ 16) (hstop : (groups.stop : ℤ) ≤ maxKeyGroups)
    (hle : groups.start < groups.stop) :
    InBounds groups (groupKey g rest) ↔ groups.start ≤ g ∧ g < groups.stop := by
  have hmax : groups.stop ≤ 32768 := by
    rw [maxKeyGroups] at hstop
    exact_mod_cast hstop
  rw [InBounds, groupKey, encode_two_le (by omega) hg,
    lt_encode_two (by omega) hg]

theorem visit_eq_ok (h : visitKeyGroupRange groups source target = .ok store) :
    (groups.start < groups.stop ∧ (groups.stop : ℤ) ≤ maxKeyGroups) ∧
      store = fun key => if InBounds groups key then (source key).or (target key)
        else target key := by
  simp only [visitKeyGroupRange, bind_eq_ok, require_eq_ok, pure_eq_ok] at h
  obtain ⟨-, hrange, rfl⟩ := h
  exact ⟨hrange, rfl⟩

/-- The copies of the parts, one after another. -/
def copyParts (parts : List KeyGroupSnapshot) (target : Store) : Except Error Store :=
  parts.foldlM (fun target part => visitKeyGroupRange part.groups part.snapshot.store target) target

theorem copyParts_cons {part : KeyGroupSnapshot}
    (h : copyParts (part :: parts) target = .ok store) :
    ∃ next, visitKeyGroupRange part.groups part.snapshot.store target = .ok next ∧
      copyParts parts next = .ok store := by
  rwa [copyParts, foldlM_cons, bind_eq_ok] at h

/-- An entry that is found was in a part, or was there before. -/
theorem from_of_copyParts (h : copyParts parts target = .ok store) (hv : store key = some v) :
    (∃ p ∈ parts, InBounds p.groups key ∧ p.snapshot.store key = some v) ∨ target key = some v := by
  induction parts generalizing target with
  | nil =>
    rw [copyParts, foldlM_nil, pure_eq_ok] at h
    exact .inr (h ▸ hv)
  | cons part parts ih =>
    obtain ⟨next, hvisit, hrest⟩ := copyParts_cons h
    rcases ih hrest with ⟨p, hp, hin⟩ | hnext
    · exact .inl ⟨p, mem_cons_of_mem part hp, hin⟩
    · obtain ⟨-, rfl⟩ := visit_eq_ok hvisit
      dsimp only at hnext
      split at hnext
      · next hin =>
        rcases or_eq_some_iff.mp hnext with hsource | ⟨-, htarget⟩
        · exact .inl ⟨part, mem_cons_self, hin, hsource⟩
        · exact .inr htarget
      · exact .inr hnext

/-- An entry that all parts agree on is found if there is such a part. -/
theorem copyParts_of_mem (h : copyParts parts target = .ok store)
    (hagree : ∀ p ∈ parts, InBounds p.groups key → p.snapshot.store key = some v)
    (hsome : (∃ p ∈ parts, InBounds p.groups key) ∨ target key = some v) : store key = some v := by
  induction parts generalizing target with
  | nil =>
    rw [copyParts, foldlM_nil, pure_eq_ok] at h
    rcases hsome with ⟨p, hp, -⟩ | htarget
    · exact absurd hp not_mem_nil
    · exact h ▸ htarget
  | cons part parts ih =>
    obtain ⟨next, hvisit, hrest⟩ := copyParts_cons h
    obtain ⟨-, rfl⟩ := visit_eq_ok hvisit
    refine ih hrest (fun p hp => hagree p (mem_cons_of_mem part hp)) ?_
    by_cases hin : InBounds part.groups key
    · right
      rw [if_pos hin, hagree part mem_cons_self hin]
      rfl
    · rw [if_neg hin]
      rcases hsome with ⟨p, hp, hpin⟩ | htarget
      · rcases mem_cons.mp hp with rfl | hp
        · exact absurd hpin hin
        · exact .inl ⟨p, hp, hpin⟩
      · exact .inr htarget

section

variable (h : restoreKeyGroupRanges assigned parts = .ok store)
include h

/-- What `RestoreKeyGroupRanges` has checked. -/
theorem restore_eq_ok : ∃ ordered : List KeyGroupSnapshot, ordered.Perm parts ∧
    Tiles (fun p => (p.groups.start : ℤ)) (fun p => (p.groups.stop : ℤ)) assigned.start
      assigned.stop ordered ∧
    (assigned.stop : ℤ) ≤ maxKeyGroups ∧ copyParts ordered (fun _ => none) = .ok store := by
  simp only [restoreKeyGroupRanges, bind_eq_ok, require_eq_ok] at h
  obtain ⟨-, ⟨-, hmax, -⟩, next, hloop, -, rfl, hcopy⟩ := h
  refine ⟨_, perm_insertionSort _ _, ?_, hmax, hcopy⟩
  have hstep : ∀ (checkpoint : ℕ) (next : ℤ) (p : KeyGroupSnapshot) (next' : ℤ),
      nextPart assigned checkpoint next p = .ok next' →
        (p.groups.start : ℤ) = next ∧ next' = p.groups.stop ∧
          (p.groups.start : ℤ) < p.groups.stop := by
    intro checkpoint next p next' hnext
    simp only [nextPart, bind_eq_ok, require_eq_ok, pure_eq_ok] at hnext
    obtain ⟨-, ⟨hstart, hlt, -⟩, rfl⟩ := hnext
    exact ⟨hstart, rfl, hstart ▸ hlt⟩
  refine tiles_of_foldlM (fun next p next' hnext => ?_) (fun p hp => ?_) hloop
  · exact ⟨(hstep _ next p next' hnext).1, (hstep _ next p next' hnext).2.1⟩
  · obtain ⟨next, next', hnext⟩ := exists_step_of_foldlM hloop hp
    exact (hstep _ next p next' hnext).2.2

/-- An entry that was restored was in a part. -/
theorem entry_of_restore (hv : store key = some v) :
    ∃ p ∈ parts, InBounds p.groups key ∧ p.snapshot.store key = some v := by
  obtain ⟨ordered, hperm, -, -, hcopy⟩ := restore_eq_ok h
  rcases from_of_copyParts hcopy hv with ⟨p, hp, hin⟩ | hnone
  · exact ⟨p, hperm.mem_iff.mp hp, hin⟩
  · cases hnone

/-- **What is restored of a key group.** -/
theorem restore_iff (hg : g < 2 ^ 16) :
    store (groupKey g rest) = some v ↔ ∃ p ∈ parts, (p.groups.start ≤ g ∧ g < p.groups.stop) ∧
      p.snapshot.store (groupKey g rest) = some v := by
  obtain ⟨ordered, hperm, htiles, hmax, hcopy⟩ := restore_eq_ok h
  have hbounds : ∀ p ∈ parts,
      InBounds p.groups (groupKey g rest) ↔ p.groups.start ≤ g ∧ g < p.groups.stop := by
    intro p hp
    have hp := hperm.mem_iff.mpr hp
    have hlast := (htiles.bounds hp).2
    exact inBounds_groupKey hg (hlast.trans hmax) (by exact_mod_cast htiles.lt hp)
  constructor
  · intro hv
    obtain ⟨p, hp, hin, hentry⟩ := entry_of_restore h hv
    exact ⟨p, hp, (hbounds p hp).mp hin, hentry⟩
  · rintro ⟨p, hp, hin, hentry⟩
    refine copyParts_of_mem hcopy (fun q hq hqin => ?_)
      (.inl ⟨p, hperm.mem_iff.mpr hp, (hbounds p hp).mpr hin⟩)
    have hqin := (hbounds q (hperm.mem_iff.mp hq)).mp hqin
    have heq : q = p := htiles.unique (k := g) hq (hperm.mem_iff.mpr hp)
      ⟨by exact_mod_cast hqin.1, by exact_mod_cast hqin.2⟩
      ⟨by exact_mod_cast hin.1, by exact_mod_cast hin.2⟩
    exact heq ▸ hentry

end

end Restore

/-! ## What is assembled -/

section Assemble

variable {desc : TaskDescriptor} {restore : RescaleRestoreDescriptor}
  {fetch : String → Option TaskCheckpoint} {states : List OperatorRescaleState}
  {state : OperatorRescaleState} {assigned : KeyGroupRange} {index : ℤ}
  {snapshots : List (RescaleStatePart × TaskCheckpoint)} {store : Store} {key rest : Key} {g : ℕ}
  {v : List UInt8}

variable {d : OperatorData} {p : RescaleStatePart}

theorem handle?_eq_some {h : SnapshotHandle} : d.handle? = some h ↔ d = .handle h := by
  cases d <;> simp [OperatorData.handle?]

theorem isEmpty_eq_true : d.isEmpty = true ↔ d = .empty := by
  cases d <;> simp [OperatorData.isEmpty]

/-- What an operator copies is what the snapshots of the parts hold for it. -/
theorem assembleOperator_some (h : assembleOperator assigned snapshots index = .ok (some state)) :
    state.operatorIndex = index ∧ Forall₂ (fun x p => p.groups = RescaleStatePart.range x.1 ∧
      x.2.data index = .handle p.snapshot) snapshots state.parts := by
  simp only [assembleOperator, bind_eq_ok] at h
  obtain ⟨_, -, h⟩ := h
  split at h
  · simp only [bind_eq_ok, pure_eq_ok] at h
    obtain ⟨parts, hparts, heq⟩ := h
    cases heq
    refine ⟨rfl, (mapM_eq_ok hparts).imp fun x p hx => ?_⟩
    simp only [bind_eq_ok, demand_eq_ok, pure_eq_ok] at hx
    obtain ⟨handle, hhandle, rfl⟩ := hx
    exact ⟨rfl, handle?_eq_some.mp hhandle⟩
  · simp only [bind_eq_ok, pure_eq_ok] at h
    obtain ⟨_, -, h⟩ := h
    cases h

theorem assembleOperator_none (h : assembleOperator assigned snapshots index = .ok none) :
    ∀ x ∈ snapshots, x.2.data index = .empty := by
  simp only [assembleOperator, bind_eq_ok] at h
  obtain ⟨_, -, h⟩ := h
  split at h
  · simp only [bind_eq_ok, pure_eq_ok] at h
    obtain ⟨parts, -, h⟩ := h
    cases h
  · simp only [bind_eq_ok, pure_eq_ok] at h
    obtain ⟨_, hempty, -⟩ := h
    intro x hx
    have := forM_eq_ok hempty x hx
    rw [require_eq_ok] at this
    exact isEmpty_eq_true.mp this

/-- The snapshots are those of the parts. -/
structure Fetched (fetch : String → Option TaskCheckpoint) (parts : List RescaleStatePart)
    (snapshots : List (RescaleStatePart × TaskCheckpoint)) : Prop where
  part : ∀ x ∈ snapshots, x.1 ∈ parts ∧ fetch x.1.sourceTaskID = some x.2
  snapshot : ∀ p ∈ parts, ∃ x ∈ snapshots, x.1 = p

theorem exists_of_forall₂ {α β : Type} {R : α → β → Prop} {l : List α} {r : List β}
    (h : Forall₂ R l r) : (∀ a ∈ l, ∃ b ∈ r, R a b) ∧ ∀ b ∈ r, ∃ a ∈ l, R a b := by
  induction h with
  | nil => exact ⟨fun a ha => absurd ha not_mem_nil, fun b hb => absurd hb not_mem_nil⟩
  | @cons a b l r hab _ ih =>
    refine ⟨forall_mem_cons.mpr ⟨⟨b, mem_cons_self, hab⟩, fun a' ha' => ?_⟩,
      forall_mem_cons.mpr ⟨⟨a, mem_cons_self, hab⟩, fun b' hb' => ?_⟩⟩
    · obtain ⟨b', hb', hR⟩ := ih.1 a' ha'
      exact ⟨b', mem_cons_of_mem b hb', hR⟩
    · obtain ⟨a', ha', hR⟩ := ih.2 b' hb'
      exact ⟨a', mem_cons_of_mem a ha', hR⟩

theorem fetchPart_eq_ok {x : RescaleStatePart × TaskCheckpoint}
    (h : fetchPart desc restore fetch p = .ok x) : x.1 = p ∧ fetch p.sourceTaskID = some x.2 := by
  simp only [fetchPart, bind_eq_ok, demand_eq_ok, pure_eq_ok] at h
  obtain ⟨snapshot, hfetch, -, -, -, -, rfl⟩ := h
  exact ⟨rfl, hfetch⟩

/-- **What `assembleRescaleState` gives to an operator.** -/
theorem assemble_eq_ok (h : assembleRescaleState desc restore fetch = .ok states)
    (hindex : index ∈ operatorIndexes desc) :
    ∃ assigned snapshots, Fetched fetch restore.parts snapshots ∧
      match states.find? fun state => state.operatorIndex = index with
      | none => assembleOperator assigned snapshots index = .ok none
      | some state => assembleOperator assigned snapshots index = .ok (some state) := by
  simp only [assembleRescaleState, bind_eq_ok, pure_eq_ok] at h
  obtain ⟨-, -, -, -, -, -, next, -, -, -, snapshots, hsnapshots, results, hresults, rfl⟩ := h
  obtain ⟨hof, hfrom⟩ := exists_of_forall₂ (mapM_eq_ok hsnapshots)
  obtain ⟨hdone, hmade⟩ := exists_of_forall₂ (mapM_eq_ok hresults)
  refine ⟨⟨uint16 desc.keyGroup.start.toNat, uint16 (desc.keyGroup.stop + 1).toNat⟩, snapshots,
    ⟨fun x hx => ?_, fun p hp => ?_⟩, ?_⟩
  · obtain ⟨p, hp, hfetch⟩ := hfrom x hx
    obtain ⟨rfl, hsome⟩ := fetchPart_eq_ok hfetch
    exact ⟨(mem_insertionSort _).mp hp, hsome⟩
  · obtain ⟨x, hx, hfetch⟩ := hof p ((mem_insertionSort _).mpr hp)
    exact ⟨x, hx, (fetchPart_eq_ok hfetch).1⟩
  split
  · next hnone =>
    obtain ⟨result, hresult, hok⟩ := hdone index hindex
    cases result with
    | none => exact hok
    | some state =>
      have hmem : state ∈ results.filterMap id := mem_filterMap.mpr ⟨_, hresult, rfl⟩
      have hne := find?_eq_none.mp hnone state hmem
      exact absurd (decide_eq_true (assembleOperator_some hok).1) hne
  · next state hsome =>
    obtain ⟨result, hresult, heq⟩ := mem_filterMap.mp (mem_of_find?_eq_some hsome)
    obtain ⟨index', -, hok⟩ := hmade result hresult
    rw [show result = some state from heq] at hok
    have hfound := find?_some hsome
    have hname : state.operatorIndex = index := of_decide_eq_true hfound
    rw [← hname, (assembleOperator_some hok).1]
    exact hok

/-- What the snapshot of an old task holds for an operator. -/
def held (fetch : String → Option TaskCheckpoint) (taskID : String) (index : ℤ) : Store :=
  fun key => (fetch taskID).bind fun snapshot =>
    (snapshot.data index).handle?.bind fun handle => handle.store key

theorem held_eq {taskID : String} {snapshot : TaskCheckpoint} (h : fetch taskID = some snapshot) :
    held fetch taskID index key =
      (snapshot.data index).handle?.bind fun handle => handle.store key := by
  rw [held, h]
  rfl

/-- The range for the stores has the key groups of the part. -/
theorem mem_range (hfirst : 0 ≤ p.first) (hne : p.first < p.past) (hpast : p.past ≤ maxKeyGroups) :
    ((RescaleStatePart.range p).start ≤ g ∧ g < (RescaleStatePart.range p).stop) ↔
      p.first ≤ g ∧ (g : ℤ) < p.past := by
  simp only [RescaleStatePart.range, uint16, RescaleStatePart.first, RescaleStatePart.past,
    maxKeyGroups] at *
  omega

section

variable (h : restored desc restore fetch index = .ok store)
include h

section

variable (hindex : index ∈ operatorIndexes desc)
include hindex

theorem restored_eq_ok : ∃ snapshots, Fetched fetch restore.parts snapshots ∧
    ((∀ x ∈ snapshots, x.2.data index = .empty) ∧ (store = fun _ => none) ∨
      ∃ assigned parts, Forall₂ (fun x (p : KeyGroupSnapshot) =>
          p.groups = RescaleStatePart.range x.1 ∧ x.2.data index = .handle p.snapshot)
          snapshots parts ∧ restoreKeyGroupRanges assigned parts = .ok store) := by
  simp only [restored, bind_eq_ok] at h
  obtain ⟨states, hstates, hrestore⟩ := h
  obtain ⟨assigned, snapshots, hfetched, hfound⟩ := assemble_eq_ok hstates hindex
  refine ⟨snapshots, hfetched, ?_⟩
  cases hfind : states.find? fun state => state.operatorIndex = index with
  | none =>
    rw [hfind] at hfound hrestore
    exact .inl ⟨assembleOperator_none hfound, (pure_eq_ok.mp hrestore).symm⟩
  | some state =>
    rw [hfind] at hfound hrestore
    exact .inr ⟨_, _, (assembleOperator_some hfound).2, hrestore⟩

/-- An entry of a restored store was held by the old task of a part. -/
theorem held_of_restored (hv : store key = some v) :
    ∃ p ∈ restore.parts, held fetch p.sourceTaskID index key = some v := by
  obtain ⟨snapshots, hfetched, ⟨-, rfl⟩ | ⟨assigned, parts, hparts, hrestore⟩⟩ :=
    restored_eq_ok h hindex
  · cases hv
  · obtain ⟨p, hp, -, hentry⟩ := entry_of_restore hrestore hv
    obtain ⟨x, hx, -, hdata⟩ := (exists_of_forall₂ hparts).2 p hp
    obtain ⟨hpart, hfetch⟩ := hfetched.part x hx
    refine ⟨x.1, hpart, ?_⟩
    rw [held_eq hfetch, hdata]
    exact hentry

/-- **What an operator restores** is what the old tasks of its parts held for the parts. -/
theorem restored_iff (hg : g < 2 ^ 16)
    (hrange : ∀ p ∈ restore.parts, 0 ≤ p.first ∧ p.first < p.past ∧ p.past ≤ maxKeyGroups) :
    store (groupKey g rest) = some v ↔ ∃ p ∈ restore.parts, (p.first ≤ g ∧ (g : ℤ) < p.past) ∧
      held fetch p.sourceTaskID index (groupKey g rest) = some v := by
  obtain ⟨snapshots, hfetched, ⟨hempty, rfl⟩ | ⟨assigned, parts, hparts, hrestore⟩⟩ :=
    restored_eq_ok h hindex
  · refine iff_of_false nofun ?_
    rintro ⟨p, hp, -, hheld⟩
    obtain ⟨x, hx, rfl⟩ := hfetched.snapshot p hp
    rw [held_eq (hfetched.part x hx).2, hempty x hx] at hheld
    cases hheld
  obtain ⟨hof, hfrom⟩ := exists_of_forall₂ hparts
  rw [restore_iff hrestore hg]
  constructor
  · rintro ⟨p, hp, hin, hentry⟩
    obtain ⟨x, hx, hgroups, hdata⟩ := hfrom p hp
    obtain ⟨hpart, hfetch⟩ := hfetched.part x hx
    obtain ⟨hfirst, hne, hpast⟩ := hrange x.1 hpart
    rw [hgroups] at hin
    refine ⟨x.1, hpart, (mem_range hfirst hne hpast).mp hin, ?_⟩
    rw [held_eq hfetch, hdata]
    exact hentry
  · rintro ⟨p, hp, hin, hheld⟩
    obtain ⟨x, hx, rfl⟩ := hfetched.snapshot p hp
    obtain ⟨q, hq, hgroups, hdata⟩ := hof x hx
    obtain ⟨hfirst, hne, hpast⟩ := hrange x.1 hp
    rw [held_eq (hfetched.part x hx).2, hdata] at hheld
    refine ⟨q, hq, ?_, hheld⟩
    rw [hgroups]
    exact (mem_range hfirst hne hpast).mpr hin

end

end

end Assemble

/-! ## The whole rescaling -/

/-- **Rescaling neither loses nor duplicates keyed state.**  A key group of an old task has one new
owner among the tasks of its operator; and the store of an operator of a new task holds an entry
exactly if an old task of the same operator held it, for a key group that both own. -/
theorem rescale_exact {cp : Savepoint} {oldTasks newTasks : List TaskDescriptor}
    {parts : String → List RescaleStatePart} {fetch : String → Option TaskCheckpoint}
    (hplan : planRescaleState cp oldTasks newTasks = .ok parts)
    (hkeys : ∀ taskID index key v, held fetch taskID index key = some v →
      ∃ g < 2 ^ 16, ∃ rest, key = groupKey g rest) :
    (∀ s ∈ oldTasks, ∀ g, s.Holds g → ∃ t ∈ newTasks, (t.operatorID = s.operatorID ∧ t.Holds g) ∧
      ∀ t' ∈ newTasks, t'.operatorID = s.operatorID → t'.Holds g → t' = t) ∧
    ∀ t ∈ newTasks, ∀ restore, restore.parts = parts t.taskID →
      ∀ index ∈ operatorIndexes t, ∀ store, restored t restore fetch index = .ok store →
        ∀ key v, store key = some v ↔ ∃ s ∈ oldTasks, s.operatorID = t.operatorID ∧
          ∃ (g : ℕ) (rest : Key), key = groupKey g rest ∧ s.Holds g ∧ t.Holds g ∧
            held fetch s.taskID index key = some v := by
  have hrescaled := rescaled_of_plan hplan
  constructor
  · intro s hs g hg
    obtain ⟨t, ht, hsame, htg⟩ := hrescaled.exists_new hs hg
    exact ⟨t, ht, ⟨hsame, htg⟩, fun t' ht' hsame' htg' =>
      hrescaled.new_unique ht' ht (hsame'.trans hsame.symm) htg' htg⟩
  intro t ht restore hrestore index hindex store hstore key v
  have htiles := hrescaled.tiled t ht
  obtain ⟨hzero, -, hlast⟩ := hrescaled.targets t ht
  have hrange : ∀ p ∈ restore.parts, 0 ≤ p.first ∧ p.first < p.past ∧ p.past ≤ maxKeyGroups := by
    intro p hp
    rw [hrestore] at hp
    have hbounds := htiles.bounds hp
    have hmax := hrescaled.bounded
    refine ⟨hzero.trans hbounds.1, htiles.lt hp, hbounds.2.trans ?_⟩
    exact (Int.add_one_le_of_lt hlast).trans hmax
  constructor
  · intro hv
    obtain ⟨p₀, -, hheld₀⟩ := held_of_restored hstore hindex hv
    obtain ⟨g, hg, rest, rfl⟩ := hkeys _ _ _ _ hheld₀
    obtain ⟨p, hp, hin, hheld⟩ := (restored_iff hstore hindex hg hrange).mp hv
    rw [hrestore] at hp
    obtain ⟨s, hs, hfrom⟩ := hrescaled.taken t ht p hp
    have hwithin := hfrom.within
    have hbounds := htiles.bounds hp
    exact ⟨s, hs, hfrom.operator, g, rest, rfl,
      TaskDescriptor.holds_iff.mpr ⟨hwithin.1.trans hin.1, hin.2.trans_le hwithin.2⟩,
      TaskDescriptor.holds_iff.mpr ⟨hbounds.1.trans hin.1, hin.2.trans_le hbounds.2⟩,
      hfrom.name ▸ hheld⟩
  · rintro ⟨s, hs, hsame, g, rest, rfl, hsg, htg, hheld⟩
    have hg : g < 2 ^ 16 := by
      have hmax := hrescaled.bounded
      have := htg.2
      rw [maxKeyGroups] at hmax
      omega
    obtain ⟨p, hp, hname, hin⟩ := hrescaled.exists_part hs ht hsame hsg htg
    rw [restored_iff hstore hindex hg hrange]
    exact ⟨p, hrestore ▸ hp, hin, hname ▸ hheld⟩

section Sample

def sampleTask (taskID : String) (first last : ℤ) (parallelism : ℕ) : TaskDescriptor where
  taskID := taskID
  operatorID := "count"
  subtaskIndex := 0
  parallelism := parallelism
  numKeyGroups := 2
  keyGroup := ⟨first, last⟩
  operatorChain := [{ operatorID := "count", type := .map }]

def sampleSavepoint : Savepoint where
  completed := true
  numKeyGroups := 2
  tasks := AList.insert "old" "worker" ∅
  replicas _ := "replica"
  statePaths _ := "replica"

/-- The old task holds one entry, for the second of two key groups. -/
def sampleFetch (taskID : String) : Option TaskCheckpoint :=
  if taskID = "old" then some {
    taskID := "old"
    checkpointID := 1
    epochID := 1
    hasSource := false
    source := .empty
    operators := [.handle ⟨1, fun key => if key = groupKey 1 [7] then some [9] else none⟩]
    stateHandleIndexes := [0] }
  else none

theorem key_of_sampleFetch (taskID : String) (index : ℤ) (key : Key) (v : List UInt8)
    (h : held sampleFetch taskID index key = some v) : key = groupKey 1 [7] := by
  rw [held, bind_eq_some_iff] at h
  obtain ⟨snapshot, hsnapshot, h⟩ := h
  obtain ⟨_, rfl⟩ := ite_some_none_eq_some.mp hsnapshot
  obtain ⟨handle, hhandle, hv⟩ := bind_eq_some_iff.mp h
  rw [handle?_eq_some, TaskCheckpoint.data] at hhandle
  split at hhandle
  · cases hhandle
  · cases hn : index.toNat with
    | zero =>
      rw [hn] at hhandle
      cases hhandle
      dsimp only at hv
      split at hv
      · assumption
      · cases hv
    | succ n =>
      rw [hn] at hhandle
      cases hhandle

/-- One task becomes two, and the second has the entry. -/
theorem rescale_exact_split :
    ∃ parts store, planRescaleState sampleSavepoint [sampleTask "old" 0 1 1]
        [sampleTask "left" 0 0 2, sampleTask "right" 1 1 2] = .ok parts ∧
      restored (sampleTask "right" 1 1 2) ⟨1, 1, 2, parts "right"⟩ sampleFetch 0 = .ok store ∧
      store (groupKey 1 [7]) = some [9] ∧
      ∀ key v, store key = some v ↔ ∃ s ∈ [sampleTask "old" 0 1 1], s.operatorID = "count" ∧
        ∃ (g : ℕ) (rest : Key), key = groupKey g rest ∧ s.Holds g ∧
          (sampleTask "right" 1 1 2).Holds g ∧ held sampleFetch s.taskID 0 key = some v := by
  obtain ⟨parts, hplan, hrestored⟩ := exists_ok
    (m := planRescaleState sampleSavepoint [sampleTask "old" 0 1 1]
      [sampleTask "left" 0 0 2, sampleTask "right" 1 1 2])
    (p := fun parts => ∃ store ∈ (restored (sampleTask "right" 1 1 2) ⟨1, 1, 2, parts "right"⟩
      sampleFetch 0).toOption, store (groupKey 1 [7]) = some [9]) (by decide)
  obtain ⟨store, hstore, hentry⟩ := exists_ok hrestored
  refine ⟨parts, store, hplan, hstore, hentry, ?_⟩
  refine (rescale_exact hplan fun taskID index key v h => ?_).2 _
    (mem_cons_of_mem _ mem_cons_self) _ rfl 0 (by decide) store hstore
  exact ⟨1, by decide, [7], key_of_sampleFetch taskID index key v h⟩

end Sample

end Wire.Cluster.Rescale
