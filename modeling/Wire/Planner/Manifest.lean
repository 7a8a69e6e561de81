import Wire.Planner.Plan

/-!
# The manifest of a checkpoint

`checkpointManifest` builds the manifest of a checkpoint from the descriptors of its tasks and from
what the tasks have reported, and checks it with `ValidateComplete`.  At recovery
`checkpointInventory` reads the manifest back, builds it a second time from the record of the
checkpoint, and compares the two.

**The manifest of a planned job passes** (`manifest_recoverable`), if the job and its operators have
names, there is a task, every task has a worker, the paths of the tasks are distinct up to a slash
at the end, and a task that has prepared a transaction has a sink.  The planner checks none of
these: an operator without a name is planned, and no checkpoint of it can be completed
(`unnamed_operator_rejected`).  So it is with the others (`restrictions_needed`).

`Validate` collects its errors; the model stops at the first.  Maps from operators are kept as lists
in the order of insertion; they are sorted before they are used.
-/

namespace Wire.Planner.Manifest

open Guard Tiling List AList KeyGroup
open Wire.Worker (OperatorType)

/-! ## Metadata -/

/-- `OperatorMeta`. -/
structure OperatorMeta where
  operatorID : String
  type : OperatorType
  parallelism : ℤ
  chainedTo : Option String
deriving DecidableEq

structure KeyGroupRangeMeta where
  start : ℤ
  stop : ℤ
deriving DecidableEq

/-- `TaskMeta`; `rest` stands for the fields that are only copied. -/
structure TaskMeta where
  sinkPrepared : Bool := false
  sinkCommittedCheckpoint : ℕ := 0
  stateSHA256 : List (String × String)
  taskID : String
  operatorID : String := ""
  subtaskIndex : ℤ := 0
  keyGroupRange : KeyGroupRangeMeta := ⟨0, 0⟩
  statePath : String
  stateSizeBytes : ℤ
  stateFiles : List String
  rest : ℕ := 0
deriving DecidableEq

/-- `SinkTransaction`, always `PRE_COMMITTED`. -/
structure SinkTransaction where
  taskID : String
  operatorID : String
  committedCheckpoint : ℕ
deriving DecidableEq

def currentSchemaVersion : ℕ := 1

/-- `CheckpointMetadata`. -/
structure CheckpointMetadata where
  schemaVersion : ℕ
  isSavepoint : Bool
  checkpointID : ℤ
  jobID : String
  jobName : String
  triggerTime : ℤ
  completionTime : ℤ
  durationMs : ℤ
  numKeyGroups : ℤ
  operators : List OperatorMeta
  tasks : List TaskMeta
  sinkTxns : List SinkTransaction
deriving DecidableEq

inductive Error where
  | schemaVersion | jobID | numKeyGroups
  | operatorID | parallelism | duplicateOperator
  | taskID | duplicateTask | unknownOperator | subtaskIndex | duplicateSubtask
  | statePath | stateSize | stateFile | duplicateFile | keyGroupRange
  | unpopulated | chainParent | chainParallelism | chainedTask | sharedPath | checksum
  | taskCount | groupGap | groupCoverage
  | identity | coverage | descriptor | inventory | topology | noPrimary | sinkBoundary | noSink
  | invalid | notStored | archive | mismatch
deriving DecidableEq

/-! ## The check -/

/-- `fs.ValidPath`, on the characters of a path that is not the root. -/
def validPath (name : List Char) : Bool :=
  (name.splitOn '/').all fun element =>
    element ≠ [] && element ≠ ['.'] && element ≠ ['.', '.']

/-- `validCheckpointRelativePath`. -/
def validCheckpointRelativePath (name : List Char) : Bool :=
  name ≠ ['.'] && validPath name && !name.any fun c => c = '\\' || c = ':' || c = '\x00'

/-- `strings.TrimSuffix` of a slash. -/
def trimSlash (path : String) : List Char :=
  if path.toList.getLast? = some '/' then path.toList.dropLast else path.toList

/-- A hexadecimal text of 32 bytes. -/
def wellFormedDigest (checksum : String) : Bool :=
  checksum.toList.length = 64 &&
    checksum.toList.all fun c => c.isDigit || ('a' ≤ c && c ≤ 'f') || ('A' ≤ c && c ≤ 'F')

namespace CheckpointMetadata

variable (m : CheckpointMetadata)

def operator (id : String) : Option OperatorMeta :=
  m.operators.find? fun op => op.operatorID = id

/-- The part of `Validate` about one task. -/
def validateTask (task : TaskMeta) : Except Error Unit := do
  require (task.taskID ≠ "") .taskID
  require (task.operatorID ≠ "") .operatorID
  let op ← demand (m.operator task.operatorID) .unknownOperator
  require (0 ≤ task.subtaskIndex ∧ task.subtaskIndex < op.parallelism) .subtaskIndex
  require (validCheckpointRelativePath (trimSlash task.statePath)) .statePath
  require (0 ≤ task.stateSizeBytes) .stateSize
  require (∀ name ∈ task.stateFiles,
    validCheckpointRelativePath name.toList ∧ '/' ∉ name.toList) .stateFile
  require task.stateFiles.Nodup .duplicateFile
  require (0 ≤ task.keyGroupRange.start ∧ task.keyGroupRange.start < task.keyGroupRange.stop ∧
    task.keyGroupRange.stop ≤ m.numKeyGroups) .keyGroupRange

/-- `Validate`. -/
def validate : Except Error Unit := do
  require (m.schemaVersion = currentSchemaVersion) .schemaVersion
  require (m.jobID ≠ "") .jobID
  require (0 < m.numKeyGroups) .numKeyGroups
  require (∀ op ∈ m.operators, op.operatorID ≠ "") .operatorID
  require (m.operators.map OperatorMeta.operatorID).Nodup .duplicateOperator
  require (∀ op ∈ m.operators, 0 < op.parallelism) .parallelism
  require (m.tasks.map TaskMeta.taskID).Nodup .duplicateTask
  forM m.tasks m.validateTask
  require (m.tasks.map fun task => (task.operatorID, task.subtaskIndex)).Nodup .duplicateSubtask

/-- The walk along the parents of an operator.  Every round sees another operator, so that as many
rounds as there are operators are enough. -/
def walk (op : OperatorMeta) : ℕ → List String → OperatorMeta → Except Error Unit
  | 0, _, _ => .error .chainParent
  | n + 1, seen, current =>
    match current.chainedTo with
    | none => .ok ()
    | some id => do
      let parent ← demand (m.operator id) .chainParent
      require (parent.operatorID ∉ seen) .chainParent
      require (parent.parallelism = op.parallelism) .chainParallelism
      walk op n (parent.operatorID :: seen) parent

/-- The tasks of an operator, sorted by their key groups. -/
def owned (op : OperatorMeta) : List TaskMeta :=
  (m.tasks.filter fun task => task.operatorID = op.operatorID).insertionSort fun s t =>
    s.keyGroupRange.start ≤ t.keyGroupRange.start

/-- The part of `ValidateComplete` about the key groups of one operator. -/
def validateGroups (op : OperatorMeta) : Except Error Unit :=
  if op.chainedTo.isSome then .ok ()
  else do
    require ((m.owned op).length = op.parallelism) .taskCount
    let stop ← (m.owned op).foldlM (fun next task => do
      require (task.keyGroupRange.start = next) .groupGap
      return task.keyGroupRange.stop) 0
    require (stop = m.numKeyGroups) .groupCoverage

/-- `ValidateComplete`. -/
def validateComplete : Except Error Unit := do
  m.validate
  require (0 < m.checkpointID ∧ m.operators ≠ []) .unpopulated
  forM m.operators fun op => m.walk op (m.operators.length + 1) [op.operatorID] op
  require (∀ task ∈ m.tasks, ∀ op ∈ m.operator task.operatorID, op.chainedTo = none) .chainedTask
  require (m.tasks.map fun task => trimSlash task.statePath).Nodup .sharedPath
  require (∀ task ∈ m.tasks, ∀ x ∈ task.stateSHA256,
    x.1 ∈ task.stateFiles ∧ wellFormedDigest x.2 = true) .checksum
  forM m.operators m.validateGroups

end CheckpointMetadata

/-! ## The manifest -/

/-- What is read of the record of a checkpoint. -/
structure CheckpointMeta where
  jobID : String
  id : ℕ
  timestamp : ℤ
  savepointID : String
  numKeyGroups : ℤ
  tasks : AList fun _ : String => String
  taskDescriptors : List TaskDescriptor
  invalidReason : String := ""
  manifestVersion : ℕ := currentSchemaVersion
  /-- The reports of the tasks, decoded. -/
  taskManifests : AList fun _ : String => TaskMeta

structure JobMeta where
  id : String
  name : String

structure Builder where
  operators : List OperatorMeta := []
  seen : List String := []
  tasks : List TaskMeta := []
  sinkTxns : List SinkTransaction := []

def operatorMeta (desc : TaskDescriptor) (op : OperatorDescriptor) : OperatorMeta where
  operatorID := op.operatorID
  type := op.type
  parallelism := desc.parallelism
  chainedTo := if op.operatorID = desc.operatorID then none else some desc.operatorID

/-- One round of the loop over the chain of a task. -/
def addOperator (desc : TaskDescriptor) (operators : List OperatorMeta) (op : OperatorDescriptor) :
    Except Error (List OperatorMeta) :=
  match operators.find? fun previous => previous.operatorID = op.operatorID with
  | some previous => do
    require (previous = operatorMeta desc op) .topology
    return operators
  | none => .ok (operators ++ [operatorMeta desc op])

/-- The report of a task with its place in the topology. -/
def TaskMeta.placed (desc : TaskDescriptor) (task : TaskMeta) : TaskMeta :=
  { task with
    operatorID := desc.operatorID
    subtaskIndex := desc.subtaskIndex
    keyGroupRange := ⟨desc.keyGroup.start, desc.keyGroup.stop + 1⟩ }

/-- The last sink of the chain. -/
def sinkID (desc : TaskDescriptor) : String :=
  (((desc.operatorChain.filter fun op => op.type = .sink).getLast?).map
    OperatorDescriptor.operatorID).getD ""

def sinkTransactions (cp : CheckpointMeta) (desc : TaskDescriptor) (task : TaskMeta) :
    Except Error (List SinkTransaction) :=
  if task.sinkPrepared then do
    require (task.sinkCommittedCheckpoint ≤ cp.id) .sinkBoundary
    require (sinkID desc ≠ "") .noSink
    return [⟨task.taskID, sinkID desc, task.sinkCommittedCheckpoint⟩]
  else .ok []

/-- One round of the loop over the descriptors. -/
def addDescriptor (cp : CheckpointMeta) (inventory : AList fun _ : String => TaskMeta)
    (b : Builder) (desc : TaskDescriptor) : Except Error Builder := do
  require (desc.taskID ∉ b.seen ∧ (cp.tasks.lookup desc.taskID).getD "" ≠ "") .descriptor
  let task ← demand (inventory.lookup desc.taskID) .inventory
  require (task.taskID = desc.taskID) .inventory
  let operators ← desc.operatorChain.foldlM (addOperator desc) b.operators
  require (∃ op ∈ desc.operatorChain, op.operatorID = desc.operatorID) .noPrimary
  let txns ← sinkTransactions cp desc task
  return {
    operators
    seen := desc.taskID :: b.seen
    tasks := b.tasks ++ [task.placed desc]
    sinkTxns := b.sinkTxns ++ txns }

/-- The manifest, before it is checked. -/
def Builder.manifest (b : Builder) (job : JobMeta) (cp : CheckpointMeta) (completed : ℤ) :
    CheckpointMetadata where
  schemaVersion := currentSchemaVersion
  isSavepoint := cp.savepointID ≠ ""
  checkpointID := cp.id
  jobID := job.id
  jobName := job.name
  triggerTime := cp.timestamp
  completionTime := completed
  durationMs := completed - cp.timestamp
  numKeyGroups := cp.numKeyGroups
  operators := b.operators.insertionSort fun s t => s.operatorID ≤ t.operatorID
  tasks := b.tasks.insertionSort fun s t => s.taskID ≤ t.taskID
  sinkTxns := b.sinkTxns.insertionSort fun s t => s.taskID ≤ t.taskID

/-- `checkpointManifest`. -/
def checkpointManifest (job : JobMeta) (cp : CheckpointMeta)
    (inventory : AList fun _ : String => TaskMeta) (completed : ℤ) :
    Except Error CheckpointMetadata := do
  require (job.id = cp.jobID ∧ cp.id ≠ 0 ∧ cp.id < 2 ^ 63) .identity
  require (inventory.entries.length = cp.tasks.entries.length ∧
    cp.taskDescriptors.length = cp.tasks.entries.length) .coverage
  let b ← cp.taskDescriptors.foldlM (addDescriptor cp inventory) {}
  (b.manifest job cp completed).validateComplete
  return b.manifest job cp completed

/-- The three calls of `sort.Slice`. -/
def CheckpointMetadata.sorted (m : CheckpointMetadata) : CheckpointMetadata :=
  { m with
    operators := m.operators.insertionSort fun s t => s.operatorID ≤ t.operatorID
    tasks := m.tasks.insertionSort fun s t => s.taskID ≤ t.taskID
    sinkTxns := m.sinkTxns.insertionSort fun s t => s.taskID ≤ t.taskID }

/-- `checkpointInventory`; the manifest is what the store has under its key, decoded. -/
def checkpointInventory (stored : Option CheckpointMetadata) (cp : CheckpointMeta) :
    Except Error (AList fun _ : String => TaskMeta) := do
  require (cp.invalidReason = "") .invalid
  if cp.manifestVersion = 0 then return ∅
  require (cp.manifestVersion = currentSchemaVersion) .schemaVersion
  let manifest ← demand stored .notStored
  -- UnmarshalCheckpointMetadata
  manifest.validate
  manifest.validateComplete
  require (manifest.jobID = cp.jobID ∧ 0 < manifest.checkpointID ∧ manifest.checkpointID = cp.id ∧
    manifest.numKeyGroups = cp.numKeyGroups) .identity
  require (∀ task ∈ manifest.tasks, (cp.tasks.lookup task.taskID).getD "" ≠ "" ∧
    (task.stateSHA256.lookup "checkpoint.archive").getD "" ≠ "" ∧ 0 < task.stateSizeBytes) .archive
  let inventory : AList (fun _ : String => TaskMeta) :=
    manifest.tasks.foldl (fun inventory task => inventory.insert task.taskID task) ∅
  require (inventory.entries.length = cp.tasks.entries.length) .coverage
  let expected ← checkpointManifest ⟨cp.jobID, manifest.jobName⟩ cp cp.taskManifests
    manifest.completionTime
  require (expected = manifest.sorted) .mismatch
  return inventory

/-! ## Sorting by a key -/

section SortBy

variable {α β : Type} [LinearOrder β] (key : α → β)

theorem pairwise_sortBy (l : List α) :
    (l.insertionSort fun a b => key a ≤ key b).Pairwise fun a b => key a ≤ key b := by
  exact pairwise_insertionSort _ l

/-- Sorting gives the list that has the elements in order, if no two have one key. -/
theorem sortBy_eq {l l' : List α} (hperm : l.Perm l')
    (hsorted : l'.Pairwise fun a b => key a ≤ key b)
    (hnodup : (l'.map key).Nodup) : (l.insertionSort fun a b => key a ≤ key b) = l' := by
  have hperm' := (perm_insertionSort (fun a b => key a ≤ key b) l).trans hperm
  refine hperm'.eq_of_pairwise (fun a b ha hb hab hba => ?_) (pairwise_sortBy key l) hsorted
  exact inj_on_of_nodup_map hnodup (hperm'.mem_iff.mp ha) hb (le_antisymm hab hba)

theorem sortBy_sortBy (l : List α) :
    ((l.insertionSort fun a b => key a ≤ key b).insertionSort fun a b => key a ≤ key b) =
      l.insertionSort fun a b => key a ≤ key b :=
  (pairwise_sortBy key l).insertionSort_eq

end SortBy

/-! ## Planned tasks -/

/-- What the planner says of a task of a chain. -/
structure OfChain (count : ℕ) (ch : PhysicalChain) (t : TaskDescriptor) : Prop where
  operatorID : t.operatorID = ch.primary
  operatorChain : t.operatorChain = ch.operators
  parallelism : t.parallelism = ch.parallelism
  subtaskIndex : t.subtaskIndex < ch.parallelism
  keyGroup : t.keyGroup = ⟨boundary count ch.parallelism t.subtaskIndex,
    (boundary count ch.parallelism (t.subtaskIndex + 1) : ℕ) - 1⟩

/-- What the manifest needs to know of the planned tasks. -/
structure Planned (count : ℕ) (chains : List PhysicalChain) (tasks : List TaskDescriptor) :
    Prop where
  nodup : (tasks.map TaskDescriptor.taskID).Nodup
  ids : ∃ jobID, ∀ t ∈ tasks, t.taskID = taskID jobID t.operatorID t.subtaskIndex
  valid : ∀ ch ∈ chains, Valid count ch.parallelism
  primary : ∀ ch ∈ chains, ∃ op ∈ ch.operators, op.operatorID = ch.primary
  unique : ∀ ch ∈ chains, ∀ ch' ∈ chains, ∀ op ∈ ch.operators, ∀ op' ∈ ch'.operators,
    op.operatorID = op'.operatorID → ch = ch' ∧ op = op'
  ofChain : ∀ t ∈ tasks, ∃ ch ∈ chains, OfChain count ch t
  subtasks : ∀ ch ∈ chains,
    (tasks.filter fun t => t.operatorID = ch.primary).map TaskDescriptor.subtaskIndex =
      range ch.parallelism

section Planned

variable {jobID : String} {g : JobGraph} {defaultParallelism : ℤ} {count : ℕ} {chains : Chains}
  {placed : Tasks} {tasks : List TaskDescriptor}

theorem flatMap_eq_of_unique {α β γ : Type} {key : α → β} {f : α → List γ} {l : List α} {a : α}
    (hnodup : (l.map key).Nodup) (ha : a ∈ l) (hf : ∀ b ∈ l, key b ≠ key a → f b = []) :
    l.flatMap f = f a := by
  induction l with
  | nil => exact absurd ha not_mem_nil
  | cons b l ih =>
    obtain ⟨hb, hl⟩ := nodup_cons.mp hnodup
    rw [flatMap_cons]
    rcases mem_cons.mp ha with rfl | hal
    · have hnil : l.flatMap f = [] := by
        rw [flatMap_eq_nil_iff]
        intro c hc
        refine hf c (mem_cons_of_mem _ hc) fun heq => hb ?_
        exact heq ▸ mem_map_of_mem hc
      rw [hnil, append_nil]
    · have hne : key b ≠ key a := fun heq => hb (heq ▸ mem_map_of_mem hal)
      rw [hf b mem_cons_self hne, nil_append]
      exact ih hl hal fun c hc => hf c (mem_cons_of_mem _ hc)

section

variable (h : Plan jobID g defaultParallelism count chains placed tasks)
include h

theorem map_bare :
    tasks.map TaskDescriptor.bare = chains.chains.flatMap (Planner.subtasks jobID count) := by
  obtain ⟨s, rfl, hjoined⟩ := h.joined
  rw [← h.layout.tasks_eq]
  refine ext_getElem? fun i => ?_
  rw [getElem?_map]
  exact hjoined.wired.same i

theorem planned_of_plan : Planned count chains.chains tasks := by
  have hids : (g.operators.map OperatorDescriptor.operatorID).Nodup := h.distinct
  have hmem : ∀ ch ∈ chains.chains, ∀ op ∈ ch.operators, op ∈ g.operators := fun ch hch op hop =>
    h.chained.perm.mem_iff.mp (mem_flatMap.mpr ⟨ch, hch, hop⟩)
  refine ⟨h.nodup_taskID, ⟨jobID, fun t ht => ?_⟩,
    fun ch hch => valid_of_validate (h.layout.accepted ch hch), ?_, ?_, ?_, ?_⟩
  · obtain ⟨c, ch, hc, hlt, hbare⟩ := h.exists_chain ht
    have hid : t.taskID = taskID jobID ch.primary t.subtaskIndex :=
      congrArg TaskDescriptor.taskID hbare
    rw [hid, show t.operatorID = ch.primary from congrArg TaskDescriptor.operatorID hbare]
  · intro ch hch
    have hprimary := PhysicalChain.primary_mem (h.chained.sound ch hch).nonempty
    obtain ⟨op, hop, hname⟩ := mem_map.mp hprimary
    exact ⟨op, hop, hname⟩
  · intro ch hch ch' hch' op hop op' hop' heq
    obtain rfl : op = op' :=
      inj_on_of_nodup_map hids (hmem ch hch op hop) (hmem ch' hch' op' hop') heq
    obtain ⟨c, hc⟩ := mem_iff_getElem?.mp hch
    obtain ⟨c', hc'⟩ := mem_iff_getElem?.mp hch'
    obtain rfl := h.chained.index_unique ⟨ch, hc, hop⟩ ⟨ch', hc', hop'⟩
    exact ⟨Option.some.inj (hc.symm.trans hc'), rfl⟩
  · intro t ht
    obtain ⟨c, ch, hc, hlt, hbare⟩ := h.exists_chain ht
    refine ⟨ch, mem_of_getElem? hc, congrArg TaskDescriptor.operatorID hbare,
      congrArg TaskDescriptor.operatorChain hbare, congrArg TaskDescriptor.parallelism hbare, hlt,
      congrArg TaskDescriptor.keyGroup hbare⟩
  · intro ch hch
    have hfilter : (tasks.filter fun t => t.operatorID = ch.primary).map TaskDescriptor.bare =
        Planner.subtasks jobID count ch := by
      have hcomm : (tasks.filter fun t => t.operatorID = ch.primary).map TaskDescriptor.bare =
          (tasks.map TaskDescriptor.bare).filter fun t => t.operatorID = ch.primary := by
        rw [filter_map]
        rfl
      rw [hcomm, map_bare h, filter_flatMap]
      have hall : (Planner.subtasks jobID count ch).filter (fun t => t.operatorID = ch.primary) =
          Planner.subtasks jobID count ch := by
        refine filter_eq_self.mpr fun t ht => ?_
        obtain ⟨i, -, rfl⟩ := mem_map.mp ht
        exact decide_eq_true rfl
      refine (flatMap_eq_of_unique (primary_nodup h.chained) hch fun ch' _ hne => ?_).trans hall
      refine filter_eq_nil_iff.mpr fun t ht => ?_
      obtain ⟨i, -, rfl⟩ := mem_map.mp ht
      exact fun heq => hne (of_decide_eq_true heq)
    have hindex := congrArg (map TaskDescriptor.subtaskIndex) hfilter
    rw [map_map, Planner.subtasks, map_map] at hindex
    exact hindex.trans (map_id _)

end

end Planned

/-! ## What the loop builds -/

/-- What the tasks have reported, and what is asked of it. -/
structure Reported (cp : CheckpointMeta) (inventory : AList fun _ : String => TaskMeta)
    (report : String → TaskMeta) : Prop where
  found : ∀ d ∈ cp.taskDescriptors, inventory.lookup d.taskID = some (report d.taskID)
  named : ∀ d ∈ cp.taskDescriptors, (report d.taskID).taskID = d.taskID
  assigned : ∀ d ∈ cp.taskDescriptors, (cp.tasks.lookup d.taskID).getD "" ≠ ""
  sinks : ∀ d ∈ cp.taskDescriptors, (report d.taskID).sinkPrepared = true →
    (report d.taskID).sinkCommittedCheckpoint ≤ cp.id ∧ sinkID d ≠ ""

/-- What the loop has built when some descriptors have been gone over. -/
structure Built (report : String → TaskMeta) (passed : List TaskDescriptor) (b : Builder) :
    Prop where
  seen : ∀ id, id ∈ b.seen ↔ ∃ d ∈ passed, d.taskID = id
  tasks : b.tasks = passed.map fun d => (report d.taskID).placed d
  operators : ∀ x, x ∈ b.operators ↔ ∃ d ∈ passed, ∃ op ∈ d.operatorChain, x = operatorMeta d op
  distinct : (b.operators.map OperatorMeta.operatorID).Nodup

section Built

variable {count : ℕ} {chains : List PhysicalChain} {tasks passed : List TaskDescriptor}
  {cp : CheckpointMeta} {inventory : AList fun _ : String => TaskMeta} {report : String → TaskMeta}
  {b : Builder} {d d' : TaskDescriptor} {op op' : OperatorDescriptor}

/-- The tasks agree on their operators. -/
theorem Planned.operatorMeta_eq (h : Planned count chains tasks) (hd : d ∈ tasks) (hd' : d' ∈ tasks)
    (hop : op ∈ d.operatorChain) (hop' : op' ∈ d'.operatorChain)
    (heq : op.operatorID = op'.operatorID) : operatorMeta d op = operatorMeta d' op' := by
  obtain ⟨ch, hch, hof⟩ := h.ofChain d hd
  obtain ⟨ch', hch', hof'⟩ := h.ofChain d' hd'
  rw [hof.operatorChain] at hop
  rw [hof'.operatorChain] at hop'
  obtain ⟨rfl, rfl⟩ := h.unique ch hch ch' hch' op hop op' hop' heq
  rw [operatorMeta, operatorMeta, hof.parallelism, hof'.parallelism, hof.operatorID,
    hof'.operatorID]

/-- The loop over a chain adds the operators that are new. -/
theorem addOperators (desc : TaskDescriptor) {ops : List OperatorDescriptor}
    {operators : List OperatorMeta}
    (hagree : ∀ op ∈ ops, ∀ x ∈ operators, x.operatorID = op.operatorID → x = operatorMeta desc op)
    (hself : ∀ op ∈ ops, ∀ op' ∈ ops, op.operatorID = op'.operatorID →
      operatorMeta desc op = operatorMeta desc op')
    (hnodup : (operators.map OperatorMeta.operatorID).Nodup) :
    ∃ operators', ops.foldlM (addOperator desc) operators = .ok operators' ∧
      (∀ x, x ∈ operators' ↔ x ∈ operators ∨ ∃ op ∈ ops, x = operatorMeta desc op) ∧
      (operators'.map OperatorMeta.operatorID).Nodup := by
  induction ops generalizing operators with
  | nil => exact ⟨operators, rfl, fun x => by simp, hnodup⟩
  | cons op ops ih =>
    have hrest : ∀ next : List OperatorMeta, addOperator desc operators op = .ok next →
        (∀ x, x ∈ next ↔ x ∈ operators ∨ x = operatorMeta desc op) →
        (next.map OperatorMeta.operatorID).Nodup →
        ∃ operators', (op :: ops).foldlM (addOperator desc) operators = .ok operators' ∧
          (∀ x, x ∈ operators' ↔ x ∈ operators ∨ ∃ op' ∈ op :: ops, x = operatorMeta desc op') ∧
          (operators'.map OperatorMeta.operatorID).Nodup := by
      intro next hstep hnext hnodup'
      have hagree' : ∀ op' ∈ ops, ∀ x ∈ next, x.operatorID = op'.operatorID →
          x = operatorMeta desc op' := by
        intro op' hop' x hx heq
        rcases (hnext x).mp hx with hx | rfl
        · exact hagree op' (mem_cons_of_mem _ hop') x hx heq
        · exact hself op mem_cons_self op' (mem_cons_of_mem _ hop') heq
      obtain ⟨operators', hfold, hmem, hdistinct⟩ := ih hagree'
        (fun a ha c hc => hself a (mem_cons_of_mem _ ha) c (mem_cons_of_mem _ hc))
        hnodup'
      refine ⟨operators', ?_, fun x => ?_, hdistinct⟩
      · rw [foldlM_cons, hstep]
        exact hfold
      · rw [hmem, hnext]
        simp only [mem_cons, exists_eq_or_imp, or_assoc]
    cases hfind : operators.find? fun previous => previous.operatorID = op.operatorID with
    | some previous =>
      have hprevious := mem_of_find?_eq_some hfind
      have hfound := find?_some hfind
      have hsame := hagree op mem_cons_self previous hprevious (of_decide_eq_true hfound)
      refine hrest operators ?_ (fun x => ?_) hnodup
      · rw [addOperator, hfind]
        dsimp only
        rw [require, if_pos hsame]
        rfl
      · exact ⟨.inl, fun hx => hx.elim id fun hx => hx ▸ hsame ▸ hprevious⟩
    | none =>
      refine hrest (operators ++ [operatorMeta desc op]) ?_ (fun x => ?_) ?_
      · rw [addOperator, hfind]
      · rw [mem_append, mem_singleton]
      · rw [map_append, map_singleton, nodup_append]
        refine ⟨hnodup, nodup_singleton _, fun id hid id' hid' heq => ?_⟩
        obtain ⟨x, hx, rfl⟩ := mem_map.mp hid
        rw [mem_singleton.mp hid'] at heq
        exact find?_eq_none.mp hfind x hx (decide_eq_true heq)

theorem sinkTransactions_ok {task : TaskMeta} (h : task.sinkPrepared = true →
    task.sinkCommittedCheckpoint ≤ cp.id ∧ sinkID d ≠ "") :
    ∃ txns, sinkTransactions cp d task = .ok txns := by
  rw [sinkTransactions]
  split
  · next hprepared =>
    obtain ⟨hle, hsink⟩ := h hprepared
    simp only [bind_eq_ok, require_eq_ok, pure_eq_ok]
    exact ⟨_, (), hle, (), hsink, rfl⟩
  · exact ⟨[], rfl⟩

section

variable (hplanned : Planned count chains cp.taskDescriptors)
  (hreported : Reported cp inventory report)
include hplanned hreported

theorem Built.addDescriptor (h : Built report passed b)
    (hpassed : ∀ p ∈ passed, p ∈ cp.taskDescriptors) (hd : d ∈ cp.taskDescriptors)
    (hfresh : ∀ p ∈ passed, p.taskID ≠ d.taskID) :
    ∃ b', Manifest.addDescriptor cp inventory b d = .ok b' ∧ Built report (passed ++ [d]) b' := by
  obtain ⟨ch, hch, hof⟩ := hplanned.ofChain d hd
  have hagree : ∀ op ∈ d.operatorChain, ∀ x ∈ b.operators, x.operatorID = op.operatorID →
      x = operatorMeta d op := by
    intro op hop x hx heq
    obtain ⟨d', hd', op', hop', rfl⟩ := (h.operators x).mp hx
    exact hplanned.operatorMeta_eq (hpassed d' hd') hd hop' hop heq
  obtain ⟨operators, hfold, hmem, hdistinct⟩ := addOperators d hagree
    (fun op hop op' hop' => hplanned.operatorMeta_eq hd hd hop hop') h.distinct
  obtain ⟨txns, htxns⟩ := sinkTransactions_ok (hreported.sinks d hd)
  have hseen : d.taskID ∉ b.seen := by
    rw [h.seen]
    rintro ⟨p, hp, heq⟩
    exact hfresh p hp heq
  have hprimary : ∃ op ∈ d.operatorChain, op.operatorID = d.operatorID := by
    rw [hof.operatorChain, hof.operatorID]
    exact hplanned.primary ch hch
  simp only [Manifest.addDescriptor, bind_eq_ok, require_eq_ok, demand_eq_ok, pure_eq_ok]
  refine ⟨_, ⟨(), ⟨hseen, hreported.assigned d hd⟩, _, hreported.found d hd, (),
    hreported.named d hd, operators, hfold, (), hprimary, txns, htxns, rfl⟩, ?_, ?_, ?_, hdistinct⟩
  · intro id
    simp only [mem_cons, h.seen, mem_append]
    grind
  · rw [h.tasks, map_append, map_singleton]
  · intro x
    simp only [hmem, h.operators, mem_append, mem_singleton]
    grind

/-- **The loop comes to its end.** -/
theorem exists_built :
    ∃ b, cp.taskDescriptors.foldlM (Manifest.addDescriptor cp inventory) {} = .ok b ∧
      Built report cp.taskDescriptors b := by
  suffices hall : ∀ (rest passed : List TaskDescriptor) (b : Builder),
      passed ++ rest = cp.taskDescriptors → Built report passed b →
        ∃ b', rest.foldlM (Manifest.addDescriptor cp inventory) b = .ok b' ∧
          Built report cp.taskDescriptors b' from
    hall cp.taskDescriptors [] {} rfl
      ⟨by simp, rfl, by simp, nodup_nil⟩
  intro rest
  induction rest with
  | nil =>
    intro passed b heq hb
    rw [append_nil] at heq
    exact ⟨b, rfl, heq ▸ hb⟩
  | cons d rest ih =>
    intro passed b heq hb
    have hmem : ∀ p, p ∈ passed ∨ p ∈ d :: rest → p ∈ cp.taskDescriptors := fun p hp =>
      heq ▸ mem_append.mpr hp
    have hnodup := hplanned.nodup
    rw [← heq, map_append, nodup_append] at hnodup
    have hfresh : ∀ p ∈ passed, p.taskID ≠ d.taskID := fun p hp =>
      hnodup.2.2 _ (mem_map_of_mem hp) _ (mem_map_of_mem mem_cons_self)
    obtain ⟨b₁, hstep, hb₁⟩ := hb.addDescriptor hplanned hreported (fun p hp => hmem p (.inl hp))
      (hmem d (.inr mem_cons_self)) hfresh
    obtain ⟨b', hfold, hb'⟩ := ih (passed ++ [d]) b₁ (by rw [append_assoc]; exact heq) hb₁
    refine ⟨b', ?_, hb'⟩
    rw [foldlM_cons, hstep]
    exact hfold

end

end Built

/-! ## The check of what was built -/

/-- What is asked of the record and of the reports for the manifest to be complete. -/
structure Complete (cp : CheckpointMeta) (report : String → TaskMeta) : Prop where
  jobID : cp.jobID ≠ ""
  id : 0 < cp.id
  populated : cp.taskDescriptors ≠ []
  operators : ∀ d ∈ cp.taskDescriptors, ∀ op ∈ d.operatorChain, op.operatorID ≠ ""
  path : ∀ d ∈ cp.taskDescriptors,
    validCheckpointRelativePath (trimSlash (report d.taskID).statePath) = true
  paths : (cp.taskDescriptors.map fun d => trimSlash (report d.taskID).statePath).Nodup
  size : ∀ d ∈ cp.taskDescriptors, 0 < (report d.taskID).stateSizeBytes
  files : ∀ d ∈ cp.taskDescriptors, ∀ name ∈ (report d.taskID).stateFiles,
    validCheckpointRelativePath name.toList ∧ '/' ∉ name.toList
  distinctFiles : ∀ d ∈ cp.taskDescriptors, (report d.taskID).stateFiles.Nodup
  digests : ∀ d ∈ cp.taskDescriptors, ∀ x ∈ (report d.taskID).stateSHA256,
    x.1 ∈ (report d.taskID).stateFiles ∧ wellFormedDigest x.2 = true
  archive : ∀ d ∈ cp.taskDescriptors,
    ((report d.taskID).stateSHA256.lookup "checkpoint.archive").getD "" ≠ ""

section Check

variable {count : ℕ} {chains : List PhysicalChain} {cp : CheckpointMeta}
    {report : String → TaskMeta}
  {b : Builder} {job : JobMeta} {completed : ℤ} {d : TaskDescriptor} {op : OperatorDescriptor}

section

variable (hb : Built report cp.taskDescriptors b)
include hb

theorem mem_operators {x : OperatorMeta} : x ∈ (b.manifest job cp completed).operators ↔
    ∃ d ∈ cp.taskDescriptors, ∃ op ∈ d.operatorChain, x = operatorMeta d op :=
  (mem_insertionSort _).trans (hb.operators x)

theorem tasks_perm (job : JobMeta) (completed : ℤ) : (b.manifest job cp completed).tasks.Perm
    (cp.taskDescriptors.map fun d => (report d.taskID).placed d) :=
  hb.tasks ▸ perm_insertionSort _ _

theorem mem_tasks {x : TaskMeta} : x ∈ (b.manifest job cp completed).tasks ↔
    ∃ d ∈ cp.taskDescriptors, (report d.taskID).placed d = x :=
  (tasks_perm hb job completed).mem_iff.trans mem_map

theorem operators_nodup :
    ((b.manifest job cp completed).operators.map OperatorMeta.operatorID).Nodup :=
  ((perm_insertionSort _ _).map _).nodup_iff.mpr hb.distinct

/-- The manifest finds an operator by its name. -/
theorem operator_eq (hd : d ∈ cp.taskDescriptors) (hop : op ∈ d.operatorChain) :
    (b.manifest job cp completed).operator op.operatorID = some (operatorMeta d op) := by
  have hmem : operatorMeta d op ∈ (b.manifest job cp completed).operators :=
    (mem_operators hb).mpr ⟨d, hd, op, hop, rfl⟩
  cases hfind : (b.manifest job cp completed).operator op.operatorID with
  | none => exact absurd (decide_eq_true rfl) (find?_eq_none.mp hfind _ hmem)
  | some x =>
    have hx := mem_of_find?_eq_some hfind
    have hfound := find?_some hfind
    have heq : x.operatorID = op.operatorID := of_decide_eq_true hfound
    rw [inj_on_of_nodup_map (operators_nodup hb) hx hmem heq]

end

/-- The operator that names a task is one of its chain, and is no other's. -/
theorem Planned.exists_primary (h : Planned count chains cp.taskDescriptors)
    (hd : d ∈ cp.taskDescriptors) : ∃ op ∈ d.operatorChain, op.operatorID = d.operatorID := by
  obtain ⟨ch, hch, hof⟩ := h.ofChain d hd
  rw [hof.operatorChain, hof.operatorID]
  exact h.primary ch hch

theorem operator_of_task (job : JobMeta) (completed : ℤ)
    (h : Planned count chains cp.taskDescriptors)
    (hb : Built report cp.taskDescriptors b) (hd : d ∈ cp.taskDescriptors) :
    ∃ op ∈ d.operatorChain, op.operatorID = d.operatorID ∧
      (b.manifest job cp completed).operator d.operatorID = some (operatorMeta d op) := by
  obtain ⟨op, hop, hname⟩ := h.exists_primary hd
  exact ⟨op, hop, hname, hname ▸ operator_eq hb hd hop⟩

theorem OfChain.groups_le {ch : PhysicalChain} (hof : OfChain count ch d)
    (hvalid : Valid count ch.parallelism) :
    boundary count ch.parallelism (d.subtaskIndex + 1) ≤ count :=
  (boundary_mono count _ (Nat.succ_le_of_lt hof.subtaskIndex)).trans
    hvalid.boundary_self.le

section

variable (h : Planned count chains cp.taskDescriptors)
include h

theorem validateTask_ok (hb : Built report cp.taskDescriptors b) (hc : Complete cp report)
    (hnamed : (report d.taskID).taskID = d.taskID) (hcount : cp.numKeyGroups = count)
    (hd : d ∈ cp.taskDescriptors) :
    (b.manifest job cp completed).validateTask ((report d.taskID).placed d) = .ok () := by
  obtain ⟨ch, hch, hof⟩ := h.ofChain d hd
  obtain ⟨op, hop, hname, hfind⟩ := operator_of_task job completed h hb hd
  obtain ⟨jobID, hids⟩ := h.ids
  have hvalid := h.valid ch hch
  have htaskID : d.taskID ≠ "" := by
    rw [hids d hd]
    intro hempty
    have hlist := congrArg String.toList hempty
    simp [taskID] at hlist
  have hlt := hvalid.boundary_lt_succ d.subtaskIndex
  have hle := hof.groups_le hvalid
  have hindex := hof.subtaskIndex
  simp only [CheckpointMetadata.validateTask, bind_eq_ok, require_eq_ok, demand_eq_ok]
  refine ⟨(), hnamed.trans_ne htaskID, (), fun hempty =>
      hc.operators d hd op hop (hname.trans hempty), _, hfind, (), ⟨?_, ?_⟩, (), hc.path d hd, (),
    (hc.size d hd).le, (), hc.files d hd, (), hc.distinctFiles d hd, ?_, ?_, ?_⟩
  · exact Int.natCast_nonneg _
  · show (d.subtaskIndex : ℤ) < d.parallelism
    rw [hof.parallelism]
    exact_mod_cast hindex
  · show (0 : ℤ) ≤ d.keyGroup.start
    rw [hof.keyGroup]
    exact Int.natCast_nonneg _
  · show d.keyGroup.start < d.keyGroup.stop + 1
    rw [hof.keyGroup]
    dsimp only
    omega
  · show d.keyGroup.stop + 1 ≤ cp.numKeyGroups
    rw [hof.keyGroup, hcount]
    dsimp only
    omega

theorem pairs_nodup :
    (cp.taskDescriptors.map fun d => (d.operatorID, (d.subtaskIndex : ℤ))).Nodup := by
  obtain ⟨jobID, hids⟩ := h.ids
  have hnodup := h.nodup
  rw [nodup_map_iff_inj_on (h.nodup.of_map _)] at hnodup ⊢
  intro d hd d' hd' heq
  obtain ⟨hoperator, hindex⟩ := Prod.mk.inj heq
  refine hnodup d hd d' hd' ?_
  rw [hids d hd, hids d' hd', hoperator, Int.ofNat.inj hindex]

theorem validate_ok (hb : Built report cp.taskDescriptors b) (hc : Complete cp report)
    (hnamed : ∀ d ∈ cp.taskDescriptors, (report d.taskID).taskID = d.taskID)
    (hcount : cp.numKeyGroups = count) (hjob : job.id = cp.jobID) :
    (b.manifest job cp completed).validate = .ok () := by
  have hperm := tasks_perm hb job completed
  obtain ⟨d, hd⟩ := exists_mem_of_ne_nil _ hc.populated
  obtain ⟨ch, hch, hof⟩ := h.ofChain d hd
  have hparallel : ∀ d ∈ cp.taskDescriptors, 0 < d.parallelism := by
    intro d hd
    obtain ⟨ch, -, hof⟩ := h.ofChain d hd
    rw [hof.parallelism]
    exact (Nat.zero_le _).trans_lt hof.subtaskIndex
  have hpositive : 0 < cp.numKeyGroups := by
    have hlt := (h.valid ch hch).boundary_lt_succ d.subtaskIndex
    have hle := hof.groups_le (h.valid ch hch)
    omega
  simp only [CheckpointMetadata.validate, bind_eq_ok, require_eq_ok]
  refine ⟨(), rfl, (), hjob.trans_ne hc.jobID, (), hpositive, (), fun x hx => ?_, (),
    operators_nodup hb, (), fun x hx => ?_, (), ?_, (), forM_ok fun x hx => ?_, ?_⟩
  · obtain ⟨d, hd, op, hop, rfl⟩ := (mem_operators hb).mp hx
    exact hc.operators d hd op hop
  · obtain ⟨d, hd, op, hop, rfl⟩ := (mem_operators hb).mp hx
    show (0 : ℤ) < d.parallelism
    exact_mod_cast hparallel d hd
  · rw [(hperm.map _).nodup_iff, map_map]
    refine (map_congr_left fun d hd => ?_).trans rfl ▸ h.nodup
    exact (hnamed d hd).symm
  · obtain ⟨d, hd, rfl⟩ := (mem_tasks hb).mp hx
    exact validateTask_ok h hb hc (hnamed d hd) hcount hd
  · rw [(hperm.map _).nodup_iff, map_map]
    exact pairs_nodup h

/-- The parents of an operator: it has none, or one that has none. -/
theorem walk_ok (hb : Built report cp.taskDescriptors b) (hd : d ∈ cp.taskDescriptors) {n : ℕ} :
    (b.manifest job cp completed).walk (operatorMeta d op) (n + 2) [op.operatorID]
      (operatorMeta d op) = .ok () := by
  by_cases hhead : op.operatorID = d.operatorID
  · have hnone : (operatorMeta d op).chainedTo = none := if_pos hhead
    rw [CheckpointMetadata.walk, hnone]
  · have hsome : (operatorMeta d op).chainedTo = some d.operatorID := if_neg hhead
    obtain ⟨head, -, hname, hfind⟩ := operator_of_task job completed h hb hd
    have hnone : (operatorMeta d head).chainedTo = none := if_pos hname
    rw [CheckpointMetadata.walk, hsome]
    simp only [bind_eq_ok, require_eq_ok, demand_eq_ok]
    refine ⟨_, hfind, (), ?_, (), rfl, ?_⟩
    · rw [mem_singleton]
      exact fun heq => hhead (heq.symm.trans hname)
    · rw [CheckpointMetadata.walk, hnone]

end

/-- The key groups of the tasks of a chain, one after another. -/
theorem foldlM_groups {tasks : List TaskMeta} {n p k l : ℕ}
    (h : tasks.map TaskMeta.keyGroupRange = (range' k l).map fun i =>
      (⟨(boundary n p i : ℕ), (boundary n p (i + 1) : ℕ)⟩ : KeyGroupRangeMeta)) :
    tasks.foldlM (fun (next : ℤ) task => do
      require (task.keyGroupRange.start = next) Error.groupGap
      return task.keyGroupRange.stop) (boundary n p k : ℕ) =
        .ok ((boundary n p (k + l) : ℕ) : ℤ) := by
  induction l generalizing tasks k with
  | zero =>
    rw [range'_zero, map_nil, map_eq_nil_iff] at h
    rw [h]
    rfl
  | succ l ih =>
    obtain ⟨task, rest, rfl, hrange, hrest⟩ := map_eq_cons_iff.mp h
    rw [foldlM_cons, hrange]
    simp only [require, if_true]
    have hfold := ih hrest
    rw [show k + 1 + l = k + (l + 1) by omega] at hfold
    exact hfold

/-- **The tasks of an operator that has tasks of its own**, in the order of their key groups. -/
theorem owned_eq (job : JobMeta) (completed : ℤ) (h : Planned count chains cp.taskDescriptors)
    (hb : Built report cp.taskDescriptors b) {ch : PhysicalChain} (hch : ch ∈ chains)
    {x : OperatorMeta} (hx : x.operatorID = ch.primary) :
    ((b.manifest job cp completed).owned x).map TaskMeta.keyGroupRange =
      (range' 0 ch.parallelism).map fun i =>
        (⟨(boundary count ch.parallelism i : ℕ),
          (boundary count ch.parallelism (i + 1) : ℕ)⟩ : KeyGroupRangeMeta) := by
  have hvalid := h.valid ch hch
  let own := (cp.taskDescriptors.filter fun d => d.operatorID = ch.primary).map fun d =>
    (report d.taskID).placed d
  have hperm : ((b.manifest job cp completed).tasks.filter fun t =>
      t.operatorID = x.operatorID).Perm
      own := by
    refine ((tasks_perm hb job completed).filter _).trans ?_
    rw [filter_map, hx]
    exact .refl _
  have hgroups : own.map TaskMeta.keyGroupRange = (range' 0 ch.parallelism).map fun i =>
      (⟨(boundary count ch.parallelism i : ℕ),
        (boundary count ch.parallelism (i + 1) : ℕ)⟩ : KeyGroupRangeMeta) := by
    rw [← range_eq_range', ← h.subtasks ch hch, map_map, map_map]
    refine map_congr_left fun d hd => ?_
    obtain ⟨hd, hname⟩ := mem_filter.mp hd
    obtain ⟨ch', hch', hof⟩ := h.ofChain d hd
    obtain ⟨op, hop, hprimary⟩ := h.primary ch hch
    obtain ⟨op', hop', hprimary'⟩ := h.primary ch' hch'
    have heq : op.operatorID = op'.operatorID := by
      rw [hprimary, hprimary', ← hof.operatorID]
      exact (of_decide_eq_true hname).symm
    obtain ⟨rfl, -⟩ := h.unique ch hch ch' hch' op hop op' hop' heq
    show KeyGroupRangeMeta.mk d.keyGroup.start (d.keyGroup.stop + 1) = _
    rw [hof.keyGroup]
    dsimp only [Function.comp_apply]
    rw [Int.sub_add_cancel]
  have hstarts : own.map (fun t => t.keyGroupRange.start) =
      (range' 0 ch.parallelism).map fun i =>
        ((boundary count ch.parallelism i : ℕ) : ℤ) :=
    (map_map (l := own)).symm.trans
      ((congrArg (map KeyGroupRangeMeta.start) hgroups).trans map_map)
  have hincreasing : (own.map fun t => t.keyGroupRange.start).Pairwise (· < ·) := by
    rw [hstarts, ← range_eq_range', pairwise_map]
    refine pairwise_lt_range.imp fun {i j} hij => ?_
    exact_mod_cast strictMono_nat_of_lt_succ hvalid.boundary_lt_succ hij
  rw [CheckpointMetadata.owned, sortBy_eq (fun t : TaskMeta => t.keyGroupRange.start) hperm
    ((pairwise_map.mp hincreasing).imp le_of_lt) (hincreasing.imp ne_of_lt), hgroups]

section

variable (h : Planned count chains cp.taskDescriptors) (hb : Built report cp.taskDescriptors b)
include h hb

theorem validateGroups_ok (hcount : cp.numKeyGroups = count) (hd : d ∈ cp.taskDescriptors) :
    (b.manifest job cp completed).validateGroups (operatorMeta d op) = .ok () := by
  by_cases hhead : op.operatorID = d.operatorID
  · obtain ⟨ch, hch, hof⟩ := h.ofChain d hd
    have hnone : (operatorMeta d op).chainedTo = none := if_pos hhead
    have howned := owned_eq job completed h hb hch (x := operatorMeta d op)
      (hhead.trans hof.operatorID)
    have hlength := congrArg length howned
    rw [length_map, length_map, length_range'] at hlength
    have hfold := foldlM_groups howned
    rw [boundary_zero, Nat.zero_add, (h.valid ch hch).boundary_self] at hfold
    rw [CheckpointMetadata.validateGroups, hnone]
    simp only [Option.isSome_none, Bool.false_eq_true, if_false, bind_eq_ok, require_eq_ok]
    refine ⟨(), ?_, _, hfold, hcount.symm⟩
    rw [hlength]
    exact congrArg _ hof.parallelism.symm
  · have hsome : (operatorMeta d op).chainedTo = some d.operatorID := if_neg hhead
    rw [CheckpointMetadata.validateGroups, hsome]
    rfl

/-- **What was built is complete.** -/
theorem validateComplete_ok (hc : Complete cp report)
    (hnamed : ∀ d ∈ cp.taskDescriptors, (report d.taskID).taskID = d.taskID)
    (hcount : cp.numKeyGroups = count) (hjob : job.id = cp.jobID) :
    (b.manifest job cp completed).validateComplete = .ok () := by
  have hperm := tasks_perm hb job completed
  obtain ⟨d, hd⟩ := exists_mem_of_ne_nil _ hc.populated
  obtain ⟨op, hop, -⟩ := h.exists_primary hd
  have hmem : operatorMeta d op ∈ (b.manifest job cp completed).operators :=
    (mem_operators hb).mpr ⟨d, hd, op, hop, rfl⟩
  simp only [CheckpointMetadata.validateComplete, bind_eq_ok, require_eq_ok]
  refine ⟨(), validate_ok h hb hc hnamed hcount hjob, (),
    ⟨Int.natCast_pos.mpr hc.id, ne_nil_of_mem hmem⟩, (), forM_ok fun x hx => ?_, (),
    fun x hx y hy => ?_, (), ?_, (), fun x hx => ?_, forM_ok fun x hx => ?_⟩
  · obtain ⟨d, hd, op, hop, rfl⟩ := (mem_operators hb).mp hx
    obtain ⟨n, hn⟩ := Nat.exists_eq_succ_of_ne_zero (length_pos_of_mem hmem).ne'
    rw [hn]
    exact walk_ok h hb hd
  · obtain ⟨d, hd, rfl⟩ := (mem_tasks hb).mp hx
    obtain ⟨head, -, hname, hfind⟩ := operator_of_task job completed h hb hd
    have hy : (b.manifest job cp completed).operator d.operatorID = some y := hy
    rw [hfind] at hy
    cases hy
    exact if_pos hname
  · rw [(hperm.map _).nodup_iff, map_map]
    exact hc.paths
  · obtain ⟨d, hd, rfl⟩ := (mem_tasks hb).mp hx
    exact hc.digests d hd
  · obtain ⟨d, hd, op, hop, rfl⟩ := (mem_operators hb).mp hx
    exact validateGroups_ok h hb hcount hd

end

end Check

/-! ## The inventory -/

section Inventory

variable {count : ℕ} {chains : List PhysicalChain} {cp : CheckpointMeta}
    {report : String → TaskMeta}
  {job : JobMeta} {completed : ℤ} {l : List TaskMeta} {s : AList fun _ : String => TaskMeta}

/-- The loop that collects the tasks of the manifest. -/
def collect (l : List TaskMeta) (s : AList fun _ : String => TaskMeta) :
    AList fun _ : String => TaskMeta :=
  l.foldl (fun inventory task => inventory.insert task.taskID task) s

theorem lookup_collect_of_notMem {id : String} (h : id ∉ l.map TaskMeta.taskID) :
    (collect l s).lookup id = s.lookup id := by
  induction l generalizing s with
  | nil => rfl
  | cons task l ih =>
    rw [map_cons, mem_cons, not_or] at h
    exact (ih h.2).trans (lookup_insert_ne h.1)

theorem lookup_collect {task : TaskMeta} (hnodup : (l.map TaskMeta.taskID).Nodup) (h : task ∈ l) :
    (collect l s).lookup task.taskID = some task := by
  induction l generalizing s with
  | nil => exact absurd h not_mem_nil
  | cons first l ih =>
    obtain ⟨hfirst, hl⟩ := nodup_cons.mp hnodup
    rcases mem_cons.mp h with rfl | h
    · exact (lookup_collect_of_notMem hfirst).trans (lookup_insert _)
    · exact ih hl h

theorem length_collect (hnodup : (l.map TaskMeta.taskID).Nodup)
    (hfresh : ∀ task ∈ l, task.taskID ∉ s) :
    (collect l s).entries.length = s.entries.length + l.length := by
  induction l generalizing s with
  | nil => rfl
  | cons first l ih =>
    obtain ⟨hfirst, hl⟩ := nodup_cons.mp hnodup
    have hnext : ∀ task ∈ l, task.taskID ∉ s.insert first.taskID first := by
      intro task htask
      rw [mem_insert, not_or]
      refine ⟨fun heq => hfirst (heq ▸ mem_map_of_mem htask), ?_⟩
      exact hfresh task (mem_cons_of_mem _ htask)
    have hlength := ih hl hnext
    rw [entries_insert_of_notMem (hfresh first mem_cons_self)] at hlength
    exact hlength.trans (Nat.add_right_comm _ _ _)

/-- The tasks of a manifest that was built are collected under the names of their descriptors. -/
theorem collect_tasks {b : Builder} (hplanned : Planned count chains cp.taskDescriptors)
    (hreported : Reported cp cp.taskManifests report) (hb : Built report cp.taskDescriptors b) :
    let inventory := collect (b.manifest job cp completed).tasks ∅
    inventory.entries.length = cp.taskDescriptors.length ∧
      ∀ d ∈ cp.taskDescriptors,
        inventory.lookup d.taskID = some ((report d.taskID).placed d) := by
  have hperm := tasks_perm hb job completed
  have hnodup : ((b.manifest job cp completed).tasks.map TaskMeta.taskID).Nodup := by
    rw [(hperm.map _).nodup_iff, map_map]
    refine (map_congr_left fun d hd => ?_).trans rfl ▸ hplanned.nodup
    exact (hreported.named d hd).symm
  refine ⟨?_, fun d hd => ?_⟩
  · rw [length_collect hnodup fun task _ => notMem_empty _, hperm.length_eq, length_map]
    exact Nat.zero_add _
  · have hfound := lookup_collect (s := ∅) hnodup ((mem_tasks hb).mpr ⟨d, hd, rfl⟩)
    have hname : ((report d.taskID).placed d).taskID = d.taskID := hreported.named d hd
    rwa [hname] at hfound

/-- **A completed checkpoint of a planned job can be recovered.**  The manifest is built, and what
is read back later are the reports of the tasks, each with its place in the topology. -/
theorem manifest_recoverable {jobID : String} {g : JobGraph} {parallelism : ℤ}
    (hbuild : buildPhysicalTasks jobID g parallelism = .ok cp.taskDescriptors)
    (hgroups : validateGraphKeyGroups g parallelism = .ok count) (hcount : cp.numKeyGroups = count)
    (hreported : Reported cp cp.taskManifests report) (hc : Complete cp report)
    (hjob : job.id = cp.jobID) (hbound : cp.id < 2 ^ 63)
    (hversion : cp.manifestVersion = currentSchemaVersion) (hvalid : cp.invalidReason = "")
    (htasks : cp.taskDescriptors.length = cp.tasks.entries.length)
    (hinventory : cp.taskManifests.entries.length = cp.tasks.entries.length) :
    ∃ m inventory, checkpointManifest job cp cp.taskManifests completed = .ok m ∧
      checkpointInventory (some m) cp = .ok inventory ∧
      inventory.entries.length = cp.taskDescriptors.length ∧
      ∀ d ∈ cp.taskDescriptors,
        inventory.lookup d.taskID = some ((report d.taskID).placed d) := by
  obtain ⟨count', chains, placed, hgroups', -, hplan⟩ := plan_of_groups hbuild
  obtain rfl : count' = count := Except.ok.inj (hgroups'.symm.trans hgroups)
  have hplanned := planned_of_plan hplan
  obtain ⟨b, hfold, hb⟩ := exists_built hplanned hreported
  have hcomplete : (b.manifest job cp completed).validateComplete = .ok () :=
    validateComplete_ok hplanned hb hc hreported.named hcount hjob
  have hvalidate : (b.manifest job cp completed).validate = .ok () :=
    validate_ok hplanned hb hc hreported.named hcount hjob
  have hmanifest : checkpointManifest job cp cp.taskManifests completed =
      .ok (b.manifest job cp completed) := by
    simp only [checkpointManifest, bind_eq_ok, require_eq_ok, pure_eq_ok]
    exact ⟨(), ⟨hjob, hc.id.ne', hbound⟩, (), ⟨hinventory, htasks⟩, b, hfold, (), hcomplete, rfl⟩
  obtain ⟨hlength, hlookup⟩ := collect_tasks hplanned hreported hb
  refine ⟨_, _, hmanifest, ?_, hlength, hlookup⟩
  -- built a second time from the record, it is the same
  have hagain : checkpointManifest ⟨cp.jobID, job.name⟩ cp cp.taskManifests completed =
      .ok (b.manifest job cp completed) := by
    rw [← hmanifest, ← hjob]
  have hsorted : (b.manifest job cp completed).sorted = b.manifest job cp completed := by
    simp only [CheckpointMetadata.sorted, Builder.manifest, sortBy_sortBy OperatorMeta.operatorID,
      sortBy_sortBy TaskMeta.taskID, sortBy_sortBy SinkTransaction.taskID]
  have hnonzero : ¬ cp.manifestVersion = 0 := by
    rw [hversion]
    decide
  simp only [checkpointInventory, if_neg hnonzero, bind_eq_ok, require_eq_ok, demand_eq_ok,
    pure_eq_ok]
  refine ⟨(), hvalid, (), hversion, _, rfl, (), hvalidate, (), hcomplete, (),
    ⟨hjob, Int.natCast_pos.mpr hc.id, rfl, rfl⟩, (), fun x hx => ?_, (), hlength.trans htasks, _,
    hagain, (), hsorted.symm, rfl⟩
  obtain ⟨d, hd, rfl⟩ := (mem_tasks hb).mp hx
  refine ⟨?_, hc.archive d hd, hc.size d hd⟩
  have hname : ((report d.taskID).placed d).taskID = d.taskID := hreported.named d hd
  rw [hname]
  exact hreported.assigned d hd

end Inventory

section Sample

/-- A source and an operator behind it, which the planner chains. -/
def sampleChain (source : String) (last : OperatorType) : List OperatorDescriptor :=
  [{ operatorID := source, type := .source }, { operatorID := "out", type := last }]

def sampleGraph (source : String) (last : OperatorType) : JobGraph where
  operators := sampleChain source last
  edges := [⟨source, "out", .forward, ""⟩]

def sampleTasks (source : String) (last : OperatorType) : List TaskDescriptor :=
  subtasks "job" 128 ⟨sampleChain source last, 2⟩

/-- Every task has prepared a transaction. -/
def sampleReport (taskID : String) : TaskMeta where
  sinkPrepared := true
  sinkCommittedCheckpoint := 1
  taskID := taskID
  stateSHA256 := [("checkpoint.archive",
    "00112233445566778899aabbccddeeff00112233445566778899aabbccddeeff")]
  statePath := taskID
  stateSizeBytes := 1
  stateFiles := ["checkpoint.archive"]

def sampleRecord (tasks : List TaskDescriptor) (report : String → TaskMeta) : CheckpointMeta where
  jobID := "job"
  id := 1
  timestamp := 0
  savepointID := ""
  numKeyGroups := 128
  tasks := tasks.foldr (fun d found => found.insert d.taskID "worker") ∅
  taskDescriptors := tasks
  taskManifests := tasks.foldr (fun d found => found.insert d.taskID (report d.taskID)) ∅

theorem build_sample (source : String) (last : OperatorType)
    (h : ∃ tasks ∈ (buildPhysicalTasks "job" (sampleGraph source last) 2).toOption,
      tasks = sampleTasks source last) :
    buildPhysicalTasks "job" (sampleGraph source last) 2 = .ok (sampleTasks source last) := by
  obtain ⟨tasks, htasks, rfl⟩ := exists_ok h
  exact htasks

/-- Two tasks, each a source with a sink that has prepared its transaction. -/
theorem manifest_recoverable_sample :
    ∃ m inventory, checkpointManifest ⟨"job", "name"⟩
        (sampleRecord (sampleTasks "count" .sink) sampleReport)
        (sampleRecord (sampleTasks "count" .sink) sampleReport).taskManifests 5 = .ok m ∧
      checkpointInventory (some m) (sampleRecord (sampleTasks "count" .sink) sampleReport) =
        .ok inventory ∧
      inventory.entries.length = 2 ∧ ∀ d ∈ sampleTasks "count" .sink,
        inventory.lookup d.taskID = some ((sampleReport d.taskID).placed d) := by
  have hgroups : validateGraphKeyGroups (sampleGraph "count" .sink) 2 = .ok 128 := rfl
  refine manifest_recoverable (build_sample "count" .sink (by decide)) hgroups rfl
    ⟨by decide, by decide, by decide, by decide⟩ ?_ rfl (by decide) rfl rfl rfl rfl
  refine ⟨by decide, by decide, by decide, by decide, by decide, by decide, by decide, by decide,
    by decide, by decide, by decide⟩

/-- The record with its own reports. -/
def CheckpointMeta.attempt (cp : CheckpointMeta) : Except Error CheckpointMetadata :=
  checkpointManifest ⟨cp.jobID, "name"⟩ cp cp.taskManifests 5

/-- **An operator without a name** is planned, and its manifest is rejected. -/
theorem unnamed_operator_rejected :
    buildPhysicalTasks "job" (sampleGraph "" .sink) 2 = .ok (sampleTasks "" .sink) ∧
      Reported (sampleRecord (sampleTasks "" .sink) sampleReport)
        (sampleRecord (sampleTasks "" .sink) sampleReport).taskManifests sampleReport ∧
      (∀ d ∈ sampleTasks "" .sink,
        validCheckpointRelativePath (trimSlash (sampleReport d.taskID).statePath) = true ∧
          0 < (sampleReport d.taskID).stateSizeBytes ∧
          ∀ x ∈ (sampleReport d.taskID).stateSHA256, wellFormedDigest x.2 = true) ∧
      (sampleRecord (sampleTasks "" .sink) sampleReport).attempt = .error .operatorID := by
  refine ⟨build_sample "" .sink (by decide), ⟨by decide, by decide, by decide, by decide⟩,
    by decide, ?_⟩
  rfl

/-- **The other restrictions.**  A graph without operators, a job without a name, an identifier that
is out of range, a task without a worker, two paths that differ in a slash at the end, names of
files that are repeated or are no names, a transaction without a sink, and one that is ahead of the
checkpoint: the manifest is rejected.  Of what a task reports about its place nothing remains. -/
theorem restrictions_needed :
    let tasks := sampleTasks "count" .sink
    let cp := sampleRecord tasks sampleReport
    let files (names : List String) :=
      sampleRecord tasks fun id => { sampleReport id with stateFiles := names }
    (buildPhysicalTasks "job" ⟨0, [], []⟩ 2 = .ok [] ∧
      (sampleRecord [] sampleReport).attempt = .error .unpopulated) ∧
    { cp with jobID := "" }.attempt = .error .jobID ∧
    { cp with id := 0 }.attempt = .error .identity ∧
    { cp with id := 2 ^ 63 }.attempt = .error .identity ∧
    { cp with tasks := cp.tasks.insert "job/out/0" "" }.attempt = .error .descriptor ∧
    (sampleRecord tasks fun id => { sampleReport id with
      statePath := if id = "job/out/0" then "a" else "a/" }).attempt = .error .sharedPath ∧
    (files ["checkpoint.archive", "checkpoint.archive"]).attempt = .error .duplicateFile ∧
    (files ["checkpoint.archive", "a/b"]).attempt = .error .stateFile ∧
    (sampleRecord (sampleTasks "count" .map) sampleReport).attempt = .error .noSink ∧
    (sampleRecord tasks fun id => { sampleReport id with
      sinkCommittedCheckpoint := 2 }).attempt = .error .sinkBoundary ∧
    ∀ d ∈ tasks, (sampleReport d.taskID).placed d ≠ sampleReport d.taskID := by
  refine ⟨⟨rfl, rfl⟩, rfl, rfl, rfl, rfl, rfl, rfl, rfl, rfl, rfl, by decide⟩

end Sample

end Wire.Planner.Manifest
