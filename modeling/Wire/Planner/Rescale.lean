import Wire.Planner.PhysicalTasks

/-!
# The plan of a rescaled state

`planRescaleState` compares the tasks of a savepoint with those of a new layout.  The key groups of
every operator have to be covered without gap or overlap by its old tasks and by its new ones.  Then
it gives each new task the parts of its range, each with the old task that holds it.

`Rescaled` is what an accepted layout has: every key group of an operator has one old owner and one
new owner (`Rescaled.old_unique`, `Rescaled.exists_new`, `Rescaled.new_unique`), and the parts of a
new task tile its range along the ranges of the old tasks (`Rescaled.exists_part`).

A range of a descriptor includes both its ends.  `End + 1` is an `int32` in the source; it can only
overflow for a target that the last loop rejects, so integers will do.
-/

namespace Wire.Planner

open Guard Tiling List Function
open Wire.KeyGroup (maxKeyGroups)

/-! ## The plan -/

/-- `rpc.RescaleStatePart`, without the digest of the archive. -/
structure RescaleStatePart where
  sourceTaskID : String
  replicaAddress : String
  groups : KeyGroupBounds
deriving DecidableEq

/-- What `planRescaleState` reads of the record of a checkpoint; an absent entry is empty. -/
structure Savepoint where
  completed : Bool
  numKeyGroups : ℤ
  tasks : AList fun _ : String => String
  replicas : String → String
  statePaths : String → String

inductive RescaleError where
  | notCompleted
  | keyGroups (e : KeyGroup.Error)
  | notCovered
  | sourceIdentity
  | sourceAssignment (taskID : String)
  | noReplica (taskID : String)
  | sourceChain
  | sourceGap
  | sourceIncomplete
  | operatorChains
  | unknownOperator (operator : String)
  | targetGap
  | targetChain
  | targetIncomplete
  | groupCount
  | duplicateTarget (taskID : String)
  | targetAssignment (taskID : String)
  | sourceCoverage (taskID : String)
  | missingSource (taskID : String)

/-- `sameRescaleChain`. -/
def sameRescaleChain (left right : List OperatorDescriptor) : Bool :=
  left.map (fun op => { op with parallelism := 0 }) =
    right.map fun op => { op with parallelism := 0 }

/-- The operators that have tasks, in some order. -/
def operators (tasks : List TaskDescriptor) : List String :=
  (tasks.map TaskDescriptor.operatorID).dedup

/-- The tasks of an operator, as `sort.Slice` leaves them. -/
def byOperator (tasks : List TaskDescriptor) (operator : String) : List TaskDescriptor :=
  (tasks.filter fun task => task.operatorID = operator).insertionSort fun s t =>
    s.keyGroup.start ≤ t.keyGroup.start

/-- The range is a range of key groups. -/
def KeyGroupBounds.Within (r : KeyGroupBounds) (numKeyGroups : ℤ) : Prop :=
  0 ≤ r.start ∧ r.start ≤ r.stop ∧ r.stop < numKeyGroups

instance (r : KeyGroupBounds) (n : ℤ) : Decidable (r.Within n) :=
  inferInstanceAs (Decidable (_ ∧ _))

/-- One round of the loop over the old tasks. -/
def addSource (cp : Savepoint) (seen : List String) (task : TaskDescriptor) :
    Except RescaleError (List String) := do
  require (task.taskID ≠ "" ∧ task.taskID ∉ seen) .sourceIdentity
  require (task.numKeyGroups = cp.numKeyGroups ∧ task.keyGroup.Within cp.numKeyGroups)
    (.sourceAssignment task.taskID)
  require ((cp.tasks.lookup task.taskID).getD "" ≠ "" ∧ cp.replicas task.taskID ≠ "" ∧
    cp.statePaths task.taskID = cp.replicas task.taskID) (.noReplica task.taskID)
  return task.taskID :: seen

/-- The loop over the sorted old tasks of one operator. -/
def coverSources (cp : Savepoint) (tasks : List TaskDescriptor) : Except RescaleError Unit := do
  let next ← tasks.foldlM (fun next task => do
    require (sameRescaleChain (tasks.headD default).operatorChain task.operatorChain) .sourceChain
    require (task.keyGroup.start = next) .sourceGap
    return task.keyGroup.stop + 1) 0
  require (next = cp.numKeyGroups) .sourceIncomplete

/-- The loop over the sorted new tasks of one operator. -/
def coverTargets (cp : Savepoint) (operator : String) (sources targets : List TaskDescriptor) :
    Except RescaleError Unit := do
  require (sources ≠ []) (.unknownOperator operator)
  let next ← targets.foldlM (fun next target => do
    require (target.keyGroup.start = next) .targetGap
    require (sameRescaleChain (sources.headD default).operatorChain target.operatorChain)
      .targetChain
    return target.keyGroup.stop + 1) 0
  require (next = cp.numKeyGroups) .targetIncomplete

/-- One round of the loop over the old tasks of the operator of a target. -/
def addPart (cp : Savepoint) (target : TaskDescriptor) (s : ℤ × List RescaleStatePart)
    (source : TaskDescriptor) : Except RescaleError (ℤ × List RescaleStatePart) :=
  let start := max source.keyGroup.start target.keyGroup.start
  let stop := min source.keyGroup.stop target.keyGroup.stop
  if start > stop then .ok s
  else do
    require (start = s.1) (.sourceCoverage target.taskID)
    return (stop + 1, s.2 ++ [{
      sourceTaskID := source.taskID
      replicaAddress := cp.replicas source.taskID
      groups := ⟨start, stop⟩ }])

/-- One round of the loop over the new tasks. -/
def addTarget (cp : Savepoint) (oldTasks : List TaskDescriptor)
    (result : String → List RescaleStatePart) (target : TaskDescriptor) :
    Except RescaleError (String → List RescaleStatePart) := do
  require (target.numKeyGroups = cp.numKeyGroups) .groupCount
  require (result target.taskID = []) (.duplicateTarget target.taskID)
  require (target.keyGroup.Within cp.numKeyGroups) (.targetAssignment target.taskID)
  let s ← (byOperator oldTasks target.operatorID).foldlM (addPart cp target)
    (target.keyGroup.start, [])
  require (s.1 = target.keyGroup.stop + 1) (.missingSource target.taskID)
  return Function.update result target.taskID s.2

/-- `planRescaleState`. -/
def planRescaleState (cp : Savepoint) (oldTasks newTasks : List TaskDescriptor) :
    Except RescaleError (String → List RescaleStatePart) := do
  require (cp.completed = true ∧ 1 ≤ cp.numKeyGroups) .notCompleted
  (KeyGroup.validate cp.numKeyGroups 1).mapError .keyGroups
  require (oldTasks ≠ [] ∧ oldTasks.length = cp.tasks.entries.length) .notCovered
  let _ ← oldTasks.foldlM (addSource cp) []
  forM (operators oldTasks) fun operator => coverSources cp (byOperator oldTasks operator)
  require ((operators newTasks).length = (operators oldTasks).length) .operatorChains
  forM (operators newTasks) fun operator =>
    coverTargets cp operator (byOperator oldTasks operator) (byOperator newTasks operator)
  newTasks.foldlM (addTarget cp oldTasks) fun _ => []

/-! ## What an accepted layout has -/

/-- The key group is in the range of the task. -/
def TaskDescriptor.Holds (t : TaskDescriptor) (g : ℤ) : Prop :=
  t.keyGroup.start ≤ g ∧ g ≤ t.keyGroup.stop

abbrev TaskDescriptor.first (t : TaskDescriptor) : ℤ := t.keyGroup.start

abbrev TaskDescriptor.past (t : TaskDescriptor) : ℤ := t.keyGroup.stop + 1

abbrev RescaleStatePart.first (p : RescaleStatePart) : ℤ := p.groups.start

abbrev RescaleStatePart.past (p : RescaleStatePart) : ℤ := p.groups.stop + 1

/-- The part is a part of what the old task holds, for a task of the same operator. -/
structure RescaleStatePart.From (p : RescaleStatePart) (source target : TaskDescriptor) : Prop where
  operator : source.operatorID = target.operatorID
  name : p.sourceTaskID = source.taskID
  within : source.first ≤ p.first ∧ p.past ≤ source.past

structure Rescaled (numKeyGroups : ℤ) (oldTasks newTasks : List TaskDescriptor)
    (parts : String → List RescaleStatePart) : Prop where
  bounded : numKeyGroups ≤ maxKeyGroups
  old : ∀ operator ∈ operators oldTasks,
    Tiles TaskDescriptor.first TaskDescriptor.past 0 numKeyGroups (byOperator oldTasks operator)
  new : ∀ operator ∈ operators newTasks,
    Tiles TaskDescriptor.first TaskDescriptor.past 0 numKeyGroups (byOperator newTasks operator)
  operators : ∀ operator, operator ∈ operators newTasks ↔ operator ∈ operators oldTasks
  sources : ∀ s ∈ oldTasks, s.keyGroup.Within numKeyGroups
  targets : ∀ t ∈ newTasks, t.keyGroup.Within numKeyGroups
  tiled : ∀ t ∈ newTasks, Tiles RescaleStatePart.first RescaleStatePart.past t.first t.past
    (parts t.taskID)
  taken : ∀ t ∈ newTasks, ∀ p ∈ parts t.taskID, ∃ s ∈ oldTasks, p.From s t

section Plan

variable {cp : Savepoint} {oldTasks newTasks tasks : List TaskDescriptor}
  {parts : String → List RescaleStatePart} {s t : TaskDescriptor} {operator : String} {g : ℤ}

theorem mem_operators : operator ∈ operators tasks ↔ ∃ t ∈ tasks, t.operatorID = operator := by
  rw [operators, mem_dedup, mem_map]

theorem mem_byOperator : t ∈ byOperator tasks operator ↔ t ∈ tasks ∧ t.operatorID = operator := by
  rw [byOperator, mem_insertionSort, mem_filter, decide_eq_true_iff]

theorem sources_within {seen seen' : List String}
    (h : oldTasks.foldlM (addSource cp) seen = .ok seen') :
    ∀ s ∈ oldTasks, s.keyGroup.Within cp.numKeyGroups := by
  induction oldTasks generalizing seen with
  | nil => exact fun s hs => absurd hs not_mem_nil
  | cons s tasks ih =>
    rw [foldlM_cons, bind_eq_ok] at h
    obtain ⟨seen₁, hs, htasks⟩ := h
    simp only [addSource, bind_eq_ok, require_eq_ok] at hs
    obtain ⟨-, -, -, ⟨-, hwithin⟩, -⟩ := hs
    exact forall_mem_cons.mpr ⟨hwithin, ih htasks⟩

theorem TaskDescriptor.holds_iff : t.Holds g ↔ t.first ≤ g ∧ g < t.past :=
  and_congr_right fun _ => Int.lt_add_one_iff.symm

theorem first_lt_past {n : ℤ} (h : t.keyGroup.Within n) : t.first < t.past := by
  have := h.2.1
  rw [TaskDescriptor.first, TaskDescriptor.past]
  omega

variable {u : Unit} {passed : List TaskDescriptor}

theorem tiles_of_coverSources (hwithin : ∀ s ∈ tasks, s.keyGroup.Within cp.numKeyGroups)
    (h : coverSources cp tasks = .ok u) :
    Tiles TaskDescriptor.first TaskDescriptor.past 0 cp.numKeyGroups tasks := by
  simp only [coverSources, bind_eq_ok, require_eq_ok] at h
  obtain ⟨next, hloop, rfl⟩ := h
  refine tiles_of_foldlM (fun next task next' hstep => ?_)
    (fun s hs => first_lt_past (hwithin s hs)) hloop
  simp only [bind_eq_ok, require_eq_ok, pure_eq_ok] at hstep
  obtain ⟨-, -, -, hstart, rfl⟩ := hstep
  exact ⟨hstart, rfl⟩

theorem tiles_of_coverTargets {sources : List TaskDescriptor}
    (hwithin : ∀ t ∈ tasks, t.keyGroup.Within cp.numKeyGroups)
    (h : coverTargets cp operator sources tasks = .ok u) :
    sources ≠ [] ∧ Tiles TaskDescriptor.first TaskDescriptor.past 0 cp.numKeyGroups tasks := by
  simp only [coverTargets, bind_eq_ok, require_eq_ok] at h
  obtain ⟨-, hsources, next, hloop, rfl⟩ := h
  refine ⟨hsources, tiles_of_foldlM (fun next task next' hstep => ?_)
    (fun s hs => first_lt_past (hwithin s hs)) hloop⟩
  simp only [bind_eq_ok, require_eq_ok, pure_eq_ok] at hstep
  obtain ⟨-, hstart, -, -, rfl⟩ := hstep
  exact ⟨hstart, rfl⟩

/-- What the loop over the old tasks of a target's operator has found so far. -/
def PartsSoFar (t : TaskDescriptor) (passed : List TaskDescriptor)
    (x : ℤ × List RescaleStatePart) : Prop :=
  Tiles RescaleStatePart.first RescaleStatePart.past t.first x.1 x.2 ∧
    ∀ p ∈ x.2, ∃ s ∈ passed, p.sourceTaskID = s.taskID ∧ s.first ≤ p.first ∧ p.past ≤ s.past

theorem PartsSoFar.addPart {x x' : ℤ × List RescaleStatePart}
    (h : PartsSoFar t passed x) (hadd : Planner.addPart cp t x s = .ok x') :
    PartsSoFar t (passed ++ [s]) x' := by
  have hkept : ∀ p ∈ x.2, ∃ s' ∈ passed ++ [s], p.sourceTaskID = s'.taskID ∧
      s'.first ≤ p.first ∧ p.past ≤ s'.past := by
    intro p hp
    obtain ⟨s', hs', hfrom⟩ := h.2 p hp
    exact ⟨s', mem_append_left _ hs', hfrom⟩
  simp only [Planner.addPart] at hadd
  split at hadd
  · cases hadd
    exact ⟨h.1, hkept⟩
  next hne =>
  simp only [bind_eq_ok, require_eq_ok, pure_eq_ok] at hadd
  obtain ⟨-, hstart, rfl⟩ := hadd
  refine ⟨.concat (x := ⟨s.taskID, cp.replicas s.taskID, _, _⟩) h.1 hstart ?_, fun p hp => ?_⟩
  · show x.1 < min s.keyGroup.stop t.keyGroup.stop + 1
    omega
  · rcases mem_append.mp hp with hp | hp
    · exact hkept p hp
    · rw [mem_singleton.mp hp]
      refine ⟨s, mem_append_right _ (mem_singleton_self s), rfl, le_max_left _ _, ?_⟩
      exact Int.add_le_add_right (min_le_left _ _) 1

/-- What the loop over the new tasks has found so far: nothing yet for the others. -/
structure TargetsSoFar (cp : Savepoint) (oldTasks passed : List TaskDescriptor)
    (parts : String → List RescaleStatePart) : Prop where
  within : ∀ t ∈ passed, t.keyGroup.Within cp.numKeyGroups
  tiled : ∀ t ∈ passed, Tiles RescaleStatePart.first RescaleStatePart.past t.first t.past
    (parts t.taskID)
  taken : ∀ t ∈ passed, ∀ p ∈ parts t.taskID, ∃ s ∈ oldTasks, p.From s t

theorem TargetsSoFar.addTarget
    {parts' : String → List RescaleStatePart} (h : TargetsSoFar cp oldTasks passed parts)
    (hadd : Planner.addTarget cp oldTasks parts t = .ok parts') :
    TargetsSoFar cp oldTasks (passed ++ [t]) parts' := by
  simp only [Planner.addTarget, bind_eq_ok, require_eq_ok, pure_eq_ok] at hadd
  obtain ⟨-, -, -, hfresh, -, hwithin, x, hloop, -, hend, rfl⟩ := hadd
  have hparts : PartsSoFar t (byOperator oldTasks t.operatorID) x :=
    foldlM_invariant (PartsSoFar t) (fun _ _ _ _ hs hstep => hs.addPart hstep)
      ⟨.nil _, fun p hp => absurd hp not_mem_nil⟩ hloop
  have hother : ∀ u ∈ passed, u.taskID ≠ t.taskID := by
    intro u hu heq
    have htiled := h.tiled u hu
    rw [heq, hfresh] at htiled
    exact (first_lt_past (h.within u hu)).ne htiled.eq_of_nil
  refine ⟨?_, ?_, ?_⟩ <;> intro u hu <;> rcases mem_append.mp hu with hu | hu
  · exact h.within u hu
  · rw [mem_singleton.mp hu]
    exact hwithin
  · rw [update_of_ne (hother u hu)]
    exact h.tiled u hu
  · rw [mem_singleton.mp hu, update_self]
    have htiled := hparts.1
    rw [hend] at htiled
    exact htiled
  · rw [update_of_ne (hother u hu)]
    exact h.taken u hu
  · rw [mem_singleton.mp hu, update_self]
    intro p hp
    obtain ⟨s, hs, hname, hin⟩ := hparts.2 p hp
    obtain ⟨hs, hoperator⟩ := mem_byOperator.mp hs
    exact ⟨s, hs, hoperator, hname, hin⟩

/-- **What `planRescaleState` accepts.** -/
theorem rescaled_of_plan (h : planRescaleState cp oldTasks newTasks = .ok parts) :
    Rescaled cp.numKeyGroups oldTasks newTasks parts := by
  simp only [planRescaleState, bind_eq_ok, require_eq_ok, mapError_eq_ok] at h
  obtain ⟨-, -, _, hvalid, -, -, seen, hseen, _, hsources, -, hcount, _, htargets, hloop⟩ := h
  have hwithin := sources_within hseen
  have hdone : TargetsSoFar cp oldTasks newTasks parts :=
    foldlM_invariant (TargetsSoFar cp oldTasks) (fun _ _ _ _ hs hstep => hs.addTarget hstep)
      ⟨fun _ ht => absurd ht not_mem_nil, fun _ ht => absurd ht not_mem_nil,
        fun _ ht => absurd ht not_mem_nil⟩ hloop
  have hnew : ∀ operator ∈ operators newTasks, byOperator oldTasks operator ≠ [] ∧
      Tiles TaskDescriptor.first TaskDescriptor.past 0 cp.numKeyGroups
        (byOperator newTasks operator) := by
    intro operator hoperator
    refine tiles_of_coverTargets (fun t ht => ?_) (forM_eq_ok htargets operator hoperator)
    exact hdone.within t (mem_byOperator.mp ht).1
  have hsubset : operators newTasks ⊆ operators oldTasks := by
    intro operator hoperator
    obtain ⟨s, hs⟩ := exists_mem_of_ne_nil _ (hnew operator hoperator).1
    obtain ⟨hs, hname⟩ := mem_byOperator.mp hs
    exact mem_operators.mpr ⟨s, hs, hname⟩
  -- no operator is left out: there are as many of the one as of the other
  have hperm : (operators newTasks).Perm (operators oldTasks) :=
    ((nodup_dedup _).subperm hsubset).perm_of_length_le hcount.ge
  refine ⟨?_, fun operator hoperator => ?_, fun operator hoperator => (hnew operator hoperator).2,
    fun operator => hperm.mem_iff, hwithin, hdone.within, hdone.tiled, hdone.taken⟩
  · simp only [KeyGroup.validate, bind_eq_ok, require_eq_ok] at hvalid
    obtain ⟨-, ⟨-, hmax⟩, -⟩ := hvalid
    exact hmax
  · refine tiles_of_coverSources (fun s hs => ?_) (forM_eq_ok hsources operator hoperator)
    exact hwithin s (mem_byOperator.mp hs).1

/-- Two tasks of one operator that own one key group are the same. -/
theorem unique_of_tiles {n : ℤ} (h : Tiles TaskDescriptor.first TaskDescriptor.past 0 n
    (byOperator tasks operator)) (hs : s ∈ tasks) (ht : t ∈ tasks) (hso : s.operatorID = operator)
    (hto : t.operatorID = operator) (hsg : s.Holds g) (htg : t.Holds g) : s = t :=
  h.unique (mem_byOperator.mpr ⟨hs, hso⟩) (mem_byOperator.mpr ⟨ht, hto⟩)
    (TaskDescriptor.holds_iff.mp hsg) (TaskDescriptor.holds_iff.mp htg)

variable {n : ℤ}

section

variable (h : Rescaled n oldTasks newTasks parts)
include h

theorem Rescaled.old_unique (hs : s ∈ oldTasks) (ht : t ∈ oldTasks)
    (hsame : s.operatorID = t.operatorID) (hsg : s.Holds g) (htg : t.Holds g) : s = t :=
  unique_of_tiles (h.old _ (mem_operators.mpr ⟨t, ht, rfl⟩)) hs ht hsame rfl hsg htg

theorem Rescaled.new_unique (hs : s ∈ newTasks) (ht : t ∈ newTasks)
    (hsame : s.operatorID = t.operatorID) (hsg : s.Holds g) (htg : t.Holds g) : s = t :=
  unique_of_tiles (h.new _ (mem_operators.mpr ⟨t, ht, rfl⟩)) hs ht hsame rfl hsg htg

/-- Every key group of an old task has a new owner. -/
theorem Rescaled.exists_new (hs : s ∈ oldTasks) (hg : s.Holds g) :
    ∃ t ∈ newTasks, t.operatorID = s.operatorID ∧ t.Holds g := by
  have hoperator : s.operatorID ∈ Planner.operators newTasks :=
    (h.operators _).mpr (mem_operators.mpr ⟨s, hs, rfl⟩)
  obtain ⟨hzero, -, hlt⟩ := h.sources s hs
  obtain ⟨t, ht, hle, hpast⟩ := (h.new _ hoperator).exists_mem (hzero.trans hg.1)
    (hg.2.trans_lt hlt)
  obtain ⟨ht, hname⟩ := mem_byOperator.mp ht
  exact ⟨t, ht, hname, TaskDescriptor.holds_iff.mpr ⟨hle, hpast⟩⟩

/-- A key group that moves from an old task to a new one is in a part that names the old one. -/
theorem Rescaled.exists_part (hs : s ∈ oldTasks) (ht : t ∈ newTasks)
    (hsame : s.operatorID = t.operatorID) (hsg : s.Holds g) (htg : t.Holds g) :
    ∃ p ∈ parts t.taskID, p.sourceTaskID = s.taskID ∧ p.first ≤ g ∧ g < p.past := by
  obtain ⟨p, hp, hin⟩ := (h.tiled t ht).exists_mem htg.1 (Int.lt_add_one_of_le htg.2)
  obtain ⟨s', hs', hfrom⟩ := h.taken t ht p hp
  have hholds : s'.Holds g :=
    TaskDescriptor.holds_iff.mpr ⟨hfrom.within.1.trans hin.1, hin.2.trans_le hfrom.within.2⟩
  have heq : s' = s := h.old_unique hs' hs (hfrom.operator.trans hsame.symm) hholds hsg
  exact ⟨p, hp, heq ▸ hfrom.name, hin⟩

end

end Plan

end Wire.Planner
