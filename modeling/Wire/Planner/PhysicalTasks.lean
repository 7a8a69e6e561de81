import Wire.Planner.ChainPlan

/-!
# Physical tasks

`buildPhysicalTasks` makes a task of every subtask of every chain and then joins the tasks along the
edges between chains.  A pass over the edges adds, for every pair of subtasks that an edge joins, an
entry to the `Downstream` list of the one and an entry to the `Upstream` list of the other.

The pairs that the loops visit are the *links*.  `Wired` says what the lists are after some links:
the `Downstream` list of a task names the targets of its links in order, every entry of a list has
its counterpart in a list of the other end, and the partition of an upstream entry is its position.
-/

namespace Wire.Planner

open Guard List Nat
open Wire.KeyGroup (KeyGroupRange ownRange allTaskRanges defaultNumKeyGroups)

/-! ## Descriptors -/

/-- `rpc.UpstreamChannelInfo`. -/
structure UpstreamChannelInfo where
  idleTimeout : ℤ
  taskID : String
  operatorID : String
  subtaskIndex : ℕ
  partitionIndex : ℕ
deriving DecidableEq

/-- `rpc.DownstreamChannelInfo`, before the addresses are filled in. -/
structure DownstreamChannelInfo where
  taskID : String
  operatorID : String
  subtaskIndex : ℕ
  partitionIndex : ℕ
deriving DecidableEq

/-- `rpc.KeyGroupRange`, both ends included. -/
structure KeyGroupBounds where
  start : ℤ
  stop : ℤ
deriving DecidableEq

/-- The fields of `rpc.TaskDescriptor` that the planner fills in. -/
structure TaskDescriptor where
  taskID : String
  operatorID : String
  subtaskIndex : ℕ
  parallelism : ℕ
  numKeyGroups : ℕ
  keyGroup : KeyGroupBounds
  operatorChain : List OperatorDescriptor
  outputKeyGroups : ℕ := 0
  upstream : List UpstreamChannelInfo := []
  downstream : List DownstreamChannelInfo := []
deriving DecidableEq

/-- The zero value. -/
instance : Inhabited TaskDescriptor :=
  ⟨{ taskID := "", operatorID := "", subtaskIndex := 0, parallelism := 0, numKeyGroups := 0
     keyGroup := ⟨0, 0⟩, operatorChain := [] }⟩

/-! ## Key groups of a graph -/

/-- `WatermarkConfig.Validate`. -/
def WatermarkConfig.validate (c : WatermarkConfig) : Except Error Unit := do
  require (c.strategy = .boundedOOO ∨ c.strategy = .monotonic ∨ c.strategy = .ingestionTime)
    .invalidWatermark
  require (c.maxOOO.all (0 ≤ ·) ∧ 0 ≤ c.emitInterval ∧ 0 ≤ c.idleTimeout) .invalidWatermark
  require (c.strategy = .boundedOOO ∨ c.maxOOO = none) .invalidWatermark

/-- `validateGraphWatermarks`. -/
def validateGraphWatermarks (g : JobGraph) : Except Error Unit :=
  forM g.operators fun op =>
    match op.watermark with
    | none => .ok ()
    | some c => do
      require (op.type = .source) .invalidWatermark
      c.validate

/-- `validateGraphKeyGroups`. -/
def validateGraphKeyGroups (g : JobGraph) (parallelism : ℤ) : Except Error ℕ := do
  validateGraphWatermarks g
  let count : ℤ := if g.numKeyGroups = 0 then defaultNumKeyGroups else g.numKeyGroups
  (KeyGroup.validate count parallelism).mapError .keyGroups
  forM g.operators fun op =>
    if op.parallelism = 0 then .ok ()
    else (KeyGroup.validate count op.parallelism).mapError .keyGroups
  return count.toNat

/-! ## Tasks -/

/-- The operator that names the tasks of a chain: the first that is not a source. -/
def PhysicalChain.primary (ch : PhysicalChain) : String :=
  ((ch.operators.find? fun op => op.type ≠ .source).getD (ch.operators.headD default)).operatorID

def taskID (jobID primary : String) (i : ℕ) : String :=
  jobID ++ "/" ++ primary ++ "/" ++ toString i

def descriptor (jobID : String) (count : ℕ) (ch : PhysicalChain) (i : ℕ) (groups : KeyGroupRange) :
    TaskDescriptor where
  taskID := taskID jobID ch.primary i
  operatorID := ch.primary
  subtaskIndex := i
  parallelism := ch.parallelism
  numKeyGroups := count
  keyGroup := ⟨groups.start, groups.stop - 1⟩
  operatorChain := ch.operators

structure Tasks where
  tasks : List TaskDescriptor := []
  /-- Where the tasks of each chain are. -/
  indexes : List (List ℕ) := []

/-- One round of the loop over the chains. -/
def Tasks.addChain (jobID : String) (count : ℕ) (s : Tasks) (ch : PhysicalChain) :
    Except Error Tasks := do
  let ranges ← (allTaskRanges count ch.parallelism).mapError .keyGroups
  return {
    tasks := s.tasks ++ ranges.mapIdx (descriptor jobID count ch)
    indexes := s.indexes ++ [range' s.tasks.length ranges.length] }

/-! ## Boundaries -/

/-- A pair of tasks that an edge joins, with their subtask indexes. -/
structure Link where
  src : ℕ
  si : ℕ
  dst : ℕ
  ti : ℕ
deriving DecidableEq

/-- The pairs that the loops over the tasks of two chains visit. -/
def links (forward : Bool) (sources targets : List ℕ) : List Link :=
  sources.zipIdx.flatMap fun (src, si) =>
    (targets.zipIdx.filter fun (_, ti) => !(forward && si != ti)).map fun (dst, ti) =>
      ⟨src, si, dst, ti⟩

/-- `sourceIdleTimeout`. -/
def sourceIdleTimeout (task : TaskDescriptor) : ℤ :=
  (task.operatorChain.findSome? fun op =>
    if op.type = .source then op.watermark.map WatermarkConfig.idleTimeout else none).getD 0

def TaskDescriptor.addDownstream (e : DownstreamChannelInfo) (t : TaskDescriptor) :
    TaskDescriptor :=
  { t with downstream := t.downstream ++ [e] }

def TaskDescriptor.addUpstream (u : UpstreamChannelInfo) (t : TaskDescriptor) : TaskDescriptor :=
  { t with upstream := t.upstream ++ [u] }

def TaskDescriptor.routeByKey (count : ℕ) (t : TaskDescriptor) : TaskDescriptor :=
  { t with outputKeyGroups := count }

/-- The body of the loops over the tasks of two chains. -/
def link (tasks : List TaskDescriptor) (l : Link) : Except Error (List TaskDescriptor) := do
  let src := tasks[l.src]?.getD default
  let dst := tasks[l.dst]?.getD default
  require (dst.upstream.length < 65536) (.partitionLimit dst.taskID)
  let partition := KeyGroup.uint16 dst.upstream.length
  let down : DownstreamChannelInfo := ⟨dst.taskID, dst.operatorID, l.ti, partition⟩
  let up : UpstreamChannelInfo :=
    ⟨sourceIdleTimeout src, src.taskID, src.operatorID, l.si, partition⟩
  return (tasks.modify l.src (.addDownstream down)).modify l.dst (.addUpstream up)

structure Boundaries where
  tasks : List TaskDescriptor
  boundaryCount : ℕ → ℕ := fun _ => 0

/-- What an edge between two chains adds. -/
def Boundaries.join (count : ℕ) (sources targets : List ℕ) (edge : EdgeDescriptor)
    (tasks : List TaskDescriptor) : Except Error (List TaskDescriptor) := do
  require (edge.shuffle = .forward ∨ edge.shuffle = .hash ∨ edge.shuffle = .rebalance)
    (.unsupportedShuffle edge.shuffle)
  require (edge.keySelector = "") .edgeKeySelector
  let tasks :=
    if edge.shuffle = .hash then
      sources.foldl (fun ts src => ts.modify src (.routeByKey count)) tasks
    else tasks
  require (edge.shuffle = .forward → sources.length = targets.length)
    (.unequalParallelism edge.source edge.target)
  (links (edge.shuffle = .forward) sources targets).foldlM link tasks

/-- The chain of an operator; the zero value of the map is chain 0. -/
def Chains.chainOf (s : Chains) (id : String) : ℕ := (s.membership id).getD 0

/-- One round of the loop over the edges. -/
def Boundaries.addEdge (count : ℕ) (chains : Chains) (indexes : List (List ℕ)) (s : Boundaries)
    (e : EdgeDescriptor) : Except Error Boundaries :=
  let edge := e.normalized
  let source := chains.chainOf edge.source
  let target := chains.chainOf edge.target
  if source = target then .ok s
  else do
    let boundaries := s.boundaryCount source + 1
    require (boundaries ≤ 1) .multipleOutputEdges
    let tasks ← join count (indexes[source]?.getD []) (indexes[target]?.getD []) edge s.tasks
    return { tasks, boundaryCount := Function.update s.boundaryCount source boundaries }

/-- `buildPhysicalTasks`. -/
def buildPhysicalTasks (jobID : String) (g : JobGraph) (parallelism : ℤ) :
    Except Error (List TaskDescriptor) := do
  let count ← validateGraphKeyGroups g parallelism
  let chains ← planPhysicalChains g parallelism
  let placed ← chains.chains.foldlM (Tasks.addChain jobID count) {}
  let joined ← g.edges.foldlM (Boundaries.addEdge count chains placed.indexes)
    { tasks := placed.tasks }
  return joined.tasks

/-! ## Task identifiers -/

theorem append_cons_inj {α : Type} {x : α} {a a' b b' : List α} (hb : x ∉ b) (hb' : x ∉ b')
    (h : a ++ x :: b = a' ++ x :: b') : a = a' ∧ b = b' := by
  rcases append_eq_append_iff.mp h with ⟨m, rfl, hm⟩ | ⟨m, rfl, hm⟩
  · cases m with
    | nil => exact ⟨(append_nil a).symm, (cons.inj hm).2⟩
    | cons y m =>
      exact absurd ((cons.inj hm).2 ▸ mem_append_right m mem_cons_self) hb
  · cases m with
    | nil => exact ⟨append_nil a', (cons.inj hm).2.symm⟩
    | cons y m =>
      exact absurd ((cons.inj hm).2 ▸ mem_append_right m mem_cons_self) hb'

/-- A number is written without slashes. -/
theorem slash_not_mem_toString (i : ℕ) : '/' ∉ (toString i).toList := by
  intro h
  rw [toString_eq_repr, repr_eq_ofList_toDigits, String.toList_ofList] at h
  have hdigit := isDigit_of_mem_toDigits (by decide) (by decide) h
  revert hdigit
  decide

variable {i i' : ℕ}

theorem toString_inj (h : (toString i).toList = (toString i').toList) : i = i' := by
  simp only [toString_eq_repr, repr_eq_ofList_toDigits, String.toList_ofList] at h
  rw [← ofDigitChars_ten_toDigits (n := i), h, ofDigitChars_ten_toDigits]

/-- **The identifier of a task says which operator and which subtask it is for**, whatever the
characters of the operator's identifier: the last slash ends it. -/
theorem taskID_inj {jobID primary primary' : String}
    (h : taskID jobID primary i = taskID jobID primary' i') : primary = primary' ∧ i = i' := by
  have hlist := congrArg String.toList h
  simp only [taskID, String.toList_append, append_assoc] at hlist
  have htail := append_cancel_left (append_cancel_left hlist)
  obtain ⟨hp, hi⟩ := append_cons_inj (slash_not_mem_toString i) (slash_not_mem_toString i') htail
  exact ⟨String.toList_inj.mp hp, toString_inj hi⟩

/-! ## The tasks of the chains -/

section Layout

variable {jobID : String} {count : ℕ}

/-- A subtask of a chain, before anything is joined. -/
def subtask (jobID : String) (count : ℕ) (ch : PhysicalChain) (i : ℕ) : TaskDescriptor :=
  descriptor jobID count ch i (ownRange count ch.parallelism i)

def subtasks (jobID : String) (count : ℕ) (ch : PhysicalChain) : List TaskDescriptor :=
  (range ch.parallelism).map (subtask jobID count ch)

/-- The tasks of some chains and where they are. -/
structure Layout (jobID : String) (count : ℕ) (chains : List PhysicalChain) (s : Tasks) :
    Prop where
  tasks_eq : s.tasks = chains.flatMap (subtasks jobID count)
  accepted : ∀ ch ∈ chains, KeyGroup.validate count ch.parallelism = .ok ()
  length_eq : s.indexes.length = chains.length
  index : ∀ (c : ℕ) (ch : PhysicalChain), chains[c]? = some ch → ∃ base,
    s.indexes[c]? = some (range' base ch.parallelism) ∧
      ∀ i < ch.parallelism, s.tasks[base + i]? = some (subtask jobID count ch i)

theorem mapIdx_ranges (ch : PhysicalChain) :
    ((range ch.parallelism).map (ownRange count ch.parallelism)).mapIdx
      (descriptor jobID count ch) = subtasks jobID count ch := by
  refine ext_getElem ?_ fun i h₁ h₂ => ?_
  · simp [subtasks]
  · simp [subtasks, subtask]

variable {chains : List PhysicalChain} {s : Tasks}

theorem Layout.addChain {s' : Tasks} {ch : PhysicalChain}
    (h : Layout jobID count chains s) (hadd : s.addChain jobID count ch = .ok s') :
    Layout jobID count (chains ++ [ch]) s' := by
  simp only [Tasks.addChain, bind_eq_ok, mapError_eq_ok, pure_eq_ok] at hadd
  obtain ⟨ranges, hranges, rfl⟩ := hadd
  obtain ⟨hvalid, rfl⟩ := KeyGroup.allTaskRanges_eq hranges
  rw [mapIdx_ranges, length_map, length_range]
  constructor
  · rw [flatMap_append, ← h.tasks_eq, flatMap_singleton]
  · intro ch' hch'
    rcases mem_append.mp hch' with hold | hlast
    · exact h.accepted ch' hold
    · rwa [mem_singleton.mp hlast]
  · rw [length_append, length_append, h.length_eq, length_singleton, length_singleton]
  · intro c ch' hc
    rcases lt_trichotomy c chains.length with hlt | heq | hgt
    · rw [getElem?_append_left hlt] at hc
      obtain ⟨base, hidx, htasks⟩ := h.index c ch' hc
      refine ⟨base, ?_, fun i hi => ?_⟩
      · rw [getElem?_append_left (h.length_eq ▸ hlt), hidx]
      · have hin := htasks i hi
        have hbound := (List.getElem?_eq_some_iff.mp hin).1
        rw [getElem?_append_left hbound, hin]
    · rw [heq, getElem?_concat_length] at hc
      cases hc
      refine ⟨s.tasks.length, ?_, fun i hi => ?_⟩
      · rw [heq, ← h.length_eq, getElem?_concat_length]
      · rw [getElem?_append_right (Nat.le_add_right _ _), Nat.add_sub_cancel_left, subtasks,
          getElem?_map, getElem?_range hi]
        rfl
    · rw [getElem?_eq_none] at hc
      · cases hc
      · rw [length_append, length_singleton]
        omega

theorem layout_of_chains
    (h : chains.foldlM (Tasks.addChain jobID count) {} = .ok s) : Layout jobID count chains s := by
  have hempty : Layout jobID count [] {} :=
    ⟨rfl, fun ch hch => absurd hch not_mem_nil, rfl, fun c ch hc => by cases hc⟩
  exact foldlM_invariant (fun chains s => Layout jobID count chains s)
    (fun _ _ _ _ hs => hs.addChain) hempty h

end Layout

end Wire.Planner
