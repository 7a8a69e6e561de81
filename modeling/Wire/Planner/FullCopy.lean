import Wire.Planner.Manifest

/-!
# What a complete manifest describes

**A manifest that `ValidateComplete` accepts describes one full copy of the state of the job**
(`validateComplete_fullCopy`): every chain has a head, every head has one task for each subtask and
one for each key group, and the paths of the tasks are apart and below the root of the checkpoint.
-/

namespace Wire.Planner.Manifest

open Guard Tiling List

/-- A path that does not begin at the root and nowhere goes up. -/
def Relative (path : List Char) : Prop :=
  path.head? ≠ some '/' ∧ ['.', '.'] ∉ path.splitOn '/'

namespace CheckpointMetadata

variable (m : CheckpointMetadata)

/-- From a chained operator to its parent. -/
def Link (op parent : OperatorMeta) : Prop :=
  op.chainedTo.bind m.operator = some parent

/-- The operator at the end of the links. -/
def Head (op head : OperatorMeta) : Prop :=
  Relation.ReflTransGen m.Link op head ∧ head.chainedTo = none

/-- The loop along the parents of `op`, as it ends: it has no rule for a loop that goes on. -/
inductive Walks (op : OperatorMeta) : List String → OperatorMeta → Except Error Unit → Prop
  | head {seen : List String} {current : OperatorMeta} (hhead : current.chainedTo = none) :
      Walks op seen current (.ok ())
  | broken {seen : List String} {current : OperatorMeta} {id : String}
      (hlink : current.chainedTo = some id)
      (hparent : ∀ parent ∈ m.operator id, parent.operatorID ∈ seen) :
      Walks op seen current (.error .chainParent)
  | uneven {seen : List String} {current parent : OperatorMeta} (hlink : m.Link current parent)
      (hnew : parent.operatorID ∉ seen) (hparallelism : parent.parallelism ≠ op.parallelism) :
      Walks op seen current (.error .chainParallelism)
  | next {seen : List String} {current parent : OperatorMeta} {r : Except Error Unit}
      (hlink : m.Link current parent) (hnew : parent.operatorID ∉ seen)
      (hparallelism : parent.parallelism = op.parallelism)
      (hrest : Walks op (parent.operatorID :: seen) parent r) : Walks op seen current r

/-- One full copy of the state of a job. -/
structure FullCopy : Prop where
  head : ∀ op ∈ m.operators, ∃ head ∈ m.operators, head.parallelism = op.parallelism ∧
    ∀ h, m.Head op h ↔ h = head
  unchained : ∀ task ∈ m.tasks, ∃ op ∈ m.operators, op.operatorID = task.operatorID ∧
    op.chainedTo = none ∧ 0 ≤ task.subtaskIndex ∧ task.subtaskIndex < op.parallelism
  subtask : ∀ op ∈ m.operators, op.chainedTo = none → ∀ i, 0 ≤ i → i < op.parallelism →
    ∃! task, task ∈ m.tasks ∧ task.operatorID = op.operatorID ∧ task.subtaskIndex = i
  inside : ∀ task ∈ m.tasks, 0 ≤ task.keyGroupRange.start ∧
    task.keyGroupRange.start < task.keyGroupRange.stop ∧ task.keyGroupRange.stop ≤ m.numKeyGroups
  keyGroup : ∀ op ∈ m.operators, op.chainedTo = none → ∀ g, 0 ≤ g → g < m.numKeyGroups →
    ∃! task, task ∈ m.tasks ∧ task.operatorID = op.operatorID ∧
      task.keyGroupRange.start ≤ g ∧ g < task.keyGroupRange.stop
  operators : (m.operators.map OperatorMeta.operatorID).Nodup
  apart : (m.tasks.map fun task => trimSlash task.statePath).Nodup
  relative : ∀ task ∈ m.tasks, Relative task.statePath.toList ∧
    ∀ name ∈ task.stateFiles, Relative name.toList

end CheckpointMetadata

section

variable {m : CheckpointMetadata} {op current : OperatorMeta}

/-! ## The chains -/

theorem mem_of_operator {id : String} (h : m.operator id = some op) :
    op ∈ m.operators ∧ op.operatorID = id :=
  ⟨mem_of_find?_eq_some h, by simpa using find?_some h⟩

variable {seen : List String} {task : TaskMeta}

/-- **The loop ends.**  It has not seen more operators than there are. -/
theorem walks {n : ℕ} (hseen : seen.Nodup) (hsub : seen ⊆ m.operators.map OperatorMeta.operatorID)
    (hn : m.operators.length < n + seen.length) :
    m.Walks op seen current (m.walk op n seen current) := by
  induction n generalizing seen current with
  | zero =>
    have hle := (hseen.subperm hsub).length_le
    rw [length_map] at hle
    omega
  | succ n ih =>
    rw [CheckpointMetadata.walk]
    cases hlink : current.chainedTo with
    | none => exact .head hlink
    | some id =>
      dsimp only
      cases hparent : m.operator id with
      | none => exact .broken hlink fun parent h => by cases hparent.symm.trans h
      | some parent =>
        have hstep : m.Link current parent := by
          rw [CheckpointMetadata.Link, hlink]
          exact hparent
        show m.Walks op seen current (require (parent.operatorID ∉ seen) _ >>= fun _ =>
          require (parent.parallelism = op.parallelism) _ >>= fun _ => m.walk op n _ parent)
        by_cases hnew : parent.operatorID ∈ seen
        · rw [require_bind_of_not (not_not.mpr hnew)]
          refine .broken hlink fun p h => ?_
          cases hparent.symm.trans h
          exact hnew
        · rw [require, if_pos hnew]
          by_cases hparallelism : parent.parallelism = op.parallelism
          · rw [require, if_pos hparallelism]
            refine .next hstep hnew hparallelism (ih (nodup_cons.mpr ⟨hnew, hseen⟩) ?_ ?_)
            · exact cons_subset.mpr ⟨mem_map_of_mem (mem_of_operator hparent).1, hsub⟩
            · rw [length_cons]
              omega
          · rw [require, if_neg hparallelism]
            exact .uneven hstep hnew hparallelism

theorem exists_head {r : Except Error Unit} (h : m.Walks op seen current r)
    (hr : r = .ok ()) (hcurrent : current ∈ m.operators)
    (hparallelism : current.parallelism = op.parallelism) :
    ∃ head ∈ m.operators, head.parallelism = op.parallelism ∧ m.Head current head := by
  induction h with
  | head hhead => exact ⟨_, hcurrent, hparallelism, .refl, hhead⟩
  | broken | uneven => cases hr
  | next hlink hnew heq hrest ih =>
    obtain ⟨id, -, hparent⟩ := Option.bind_eq_some_iff.mp hlink
    obtain ⟨head, hmem, hp, hreach, hhead⟩ := ih hr (mem_of_operator hparent).1 heq
    exact ⟨head, hmem, hp, .head hlink hreach, hhead⟩

theorem head_unique {head head' : OperatorMeta} (h : m.Head op head) (h' : m.Head op head') :
    head' = head := by
  have hright : Relator.RightUnique m.Link := fun _ _ _ hb hc => Option.some.inj (hb.symm.trans hc)
  have hstop : ∀ {a b : OperatorMeta}, a.chainedTo = none → Relation.ReflTransGen m.Link a b →
      b = a := by
    intro a b ha hab
    rcases Relation.ReflTransGen.cases_head hab with heq | ⟨c, hlink, -⟩
    · exact heq.symm
    · rw [CheckpointMetadata.Link, ha] at hlink
      cases hlink
  rcases Relation.ReflTransGen.total_of_right_unique hright h.1 h'.1 with hreach | hreach
  · exact hstop h.2 hreach
  · exact (hstop h'.2 hreach).symm

/-! ## The tasks -/

/-- As many tasks as subtasks, and no two with one index: every index has one. -/
theorem existsUnique_subtask {tasks : List TaskMeta} {p : ℤ}
    (hnodup : (tasks.map TaskMeta.subtaskIndex).Nodup) (hlength : tasks.length = p)
    (hrange : ∀ task ∈ tasks, 0 ≤ task.subtaskIndex ∧ task.subtaskIndex < p) {i : ℤ} (h0 : 0 ≤ i)
    (hp : i < p) : ∃! task, task ∈ tasks ∧ task.subtaskIndex = i := by
  have hsub : (tasks.map TaskMeta.subtaskIndex).toFinset ⊆ Finset.Ico 0 p := by
    intro j hj
    obtain ⟨task, htask, rfl⟩ := mem_map.mp (mem_toFinset.mp hj)
    exact Finset.mem_Ico.mpr (hrange task htask)
  have hcard : (Finset.Ico 0 p).card ≤ (tasks.map TaskMeta.subtaskIndex).toFinset.card := by
    rw [toFinset_card_of_nodup hnodup, length_map, Int.card_Ico]
    omega
  have hi : i ∈ (tasks.map TaskMeta.subtaskIndex).toFinset := by
    rw [Finset.eq_of_subset_of_card_le hsub hcard]
    exact Finset.mem_Ico.mpr ⟨h0, hp⟩
  obtain ⟨task, htask, rfl⟩ := mem_map.mp (mem_toFinset.mp hi)
  exact ⟨task, ⟨htask, rfl⟩, fun _ h => inj_on_of_nodup_map hnodup h.1 htask h.2⟩

/-! ## The paths -/

theorem Relative.of_valid {path : List Char} (h : validCheckpointRelativePath path = true) :
    Relative path ∧ Relative (path ++ ['/']) := by
  simp only [validCheckpointRelativePath, validPath, Bool.and_eq_true, all_eq_true,
    decide_eq_true_eq] at h
  obtain ⟨⟨-, hvalid⟩, -⟩ := h
  have hup : ['.', '.'] ∉ path.splitOn '/' := fun hmem => (hvalid _ hmem).2 rfl
  have hempty : [] ∉ path.splitOn '/' := fun hmem => (hvalid _ hmem).1.1 rfl
  cases path with
  | nil => exact absurd mem_cons_self hempty
  | cons c path =>
    have hroot : c ≠ '/' := by
      rintro rfl
      refine hempty ?_
      exact mem_cons_self
    refine ⟨⟨fun hc => hroot (Option.some.inj hc), hup⟩, fun hc => hroot (Option.some.inj hc), ?_⟩
    rw [splitOn_append_cons_self, mem_append]
    rintro (hmem | hmem)
    · exact hup hmem
    · exact absurd hmem (by decide)

theorem relative_of_trimSlash {path : String}
    (h : validCheckpointRelativePath (trimSlash path) = true) : Relative path.toList := by
  rw [trimSlash] at h
  split at h
  · next hlast =>
    have hpath := dropLast_append_getLast? _ hlast
    rw [← hpath]
    exact (Relative.of_valid h).2
  · exact (Relative.of_valid h).1

/-! ## The check -/

/-- What `Validate` has checked of a task. -/
theorem validateTask_eq_ok (h : m.validateTask task = .ok ()) :
    (∃ op, m.operator task.operatorID = some op ∧ 0 ≤ task.subtaskIndex ∧
      task.subtaskIndex < op.parallelism) ∧
    (0 ≤ task.keyGroupRange.start ∧ task.keyGroupRange.start < task.keyGroupRange.stop ∧
      task.keyGroupRange.stop ≤ m.numKeyGroups) ∧
    Relative task.statePath.toList ∧ ∀ name ∈ task.stateFiles, Relative name.toList := by
  simp only [CheckpointMetadata.validateTask, bind_eq_ok, require_eq_ok, demand_eq_ok] at h
  obtain ⟨-, -, -, -, op, hop, -, hindex, -, hpath, -, -, -, hfiles, -, -, hgroups⟩ := h
  exact ⟨⟨op, hop, hindex⟩, hgroups, relative_of_trimSlash hpath,
    fun name hname => (Relative.of_valid (hfiles name hname).1).1⟩

theorem mem_owned : task ∈ m.owned op ↔ task ∈ m.tasks ∧ task.operatorID = op.operatorID := by
  rw [CheckpointMetadata.owned, mem_insertionSort, mem_filter, decide_eq_true_iff]

/-- The tasks of a head, which are as many as it has subtasks and in order tile the key groups. -/
theorem owned_of_groups (hgroups : m.validateGroups op = .ok ()) (hhead : op.chainedTo = none)
    (htasks : ∀ task ∈ m.tasks, task.keyGroupRange.start < task.keyGroupRange.stop) :
    (m.owned op).length = op.parallelism ∧
    Tiles (fun task => task.keyGroupRange.start) (fun task => task.keyGroupRange.stop) 0
      m.numKeyGroups (m.owned op) := by
  rw [CheckpointMetadata.validateGroups, hhead] at hgroups
  simp only [Option.isSome_none, Bool.false_eq_true, if_false, bind_eq_ok, require_eq_ok] at hgroups
  obtain ⟨-, hlength, stop, hfold, rfl⟩ := hgroups
  refine ⟨hlength, tiles_of_foldlM (fun next task next' h => ?_) (fun task ht => ?_) hfold⟩
  · simp only [bind_eq_ok, require_eq_ok, pure_eq_ok] at h
    obtain ⟨-, hstart, hstop⟩ := h
    exact ⟨hstart, hstop.symm⟩
  · exact htasks task (mem_owned.mp ht).1

/-- **One full copy.**  The loop along the links of an operator ends for every manifest; and a
manifest that is accepted describes one full copy of the state of the job. -/
theorem validateComplete_fullCopy (m : CheckpointMetadata) : (∀ op ∈ m.operators,
      m.Walks op [op.operatorID] op (m.walk op (m.operators.length + 1) [op.operatorID] op)) ∧
    (m.validateComplete = .ok () → m.FullCopy) := by
  have hends : ∀ op ∈ m.operators,
      m.Walks op [op.operatorID] op (m.walk op (m.operators.length + 1) [op.operatorID] op) :=
    fun op hop => walks (nodup_singleton _) (by simpa using ⟨op, hop, rfl⟩)
      (by rw [length_singleton]; omega)
  refine ⟨hends, fun h => ?_⟩
  simp only [CheckpointMetadata.validateComplete, CheckpointMetadata.validate, bind_eq_ok,
    require_eq_ok] at h
  obtain ⟨-, ⟨-, -, -, -, -, -, -, -, -, hoperators, -, -, -, -, _, htasks, hsubtasks⟩, -, -, _,
    hwalks, -, hchained, -, hapart, -, -, hgroups⟩ := h
  have htask task (ht : task ∈ m.tasks) := validateTask_eq_ok (forM_eq_ok htasks task ht)
  have howned op (hop : op ∈ m.operators) (hhead : op.chainedTo = none) :=
    owned_of_groups (forM_eq_ok hgroups op hop) hhead fun task ht => (htask task ht).2.1.2.1
  refine ⟨fun op hop => ?_, fun task ht => ?_, fun op hop hhead i h0 hp => ?_,
    fun task ht => (htask task ht).2.1, fun op hop hhead g h0 hg => ?_, hoperators, hapart,
    fun task ht => (htask task ht).2.2⟩
  · obtain ⟨head, hmem, hp, hhead⟩ := exists_head (hends op hop) (forM_eq_ok hwalks op hop) hop rfl
    exact ⟨head, hmem, hp, fun h => ⟨head_unique hhead, fun heq => heq ▸ hhead⟩⟩
  · obtain ⟨⟨op, hop, hindex⟩, -⟩ := htask task ht
    exact ⟨op, (mem_of_operator hop).1, (mem_of_operator hop).2, hchained task ht op hop, hindex⟩
  · obtain ⟨hlength, -⟩ := howned op hop hhead
    have hnodup : ((m.owned op).map TaskMeta.subtaskIndex).Nodup := by
      refine .map_on (fun s hs t ht heq => ?_) ?_
      · rw [mem_owned] at hs ht
        exact inj_on_of_nodup_map hsubtasks hs.1 ht.1 (Prod.ext (hs.2.trans ht.2.symm) heq)
      · rw [CheckpointMetadata.owned, (perm_insertionSort _ _).nodup_iff]
        exact (Nodup.of_map _ hsubtasks).filter _
    have hrange : ∀ task ∈ m.owned op,
        0 ≤ task.subtaskIndex ∧ task.subtaskIndex < op.parallelism := by
      intro task ht
      rw [mem_owned] at ht
      obtain ⟨op', hop', hindex⟩ := (htask task ht.1).1
      obtain ⟨hmem, hid⟩ := mem_of_operator hop'
      rwa [inj_on_of_nodup_map hoperators hmem hop (hid.trans ht.2)] at hindex
    simpa only [mem_owned, and_assoc] using existsUnique_subtask hnodup hlength hrange h0 hp
  · obtain ⟨-, htiles⟩ := howned op hop hhead
    obtain ⟨task, ht, hg⟩ := htiles.exists_mem h0 hg
    refine ⟨task, ⟨(mem_owned.mp ht).1, (mem_owned.mp ht).2, hg⟩, fun task' ht' => ?_⟩
    exact htiles.unique (mem_owned.mpr ⟨ht'.1, ht'.2.1⟩) ht ht'.2.2 hg

end

def sampleState (id : String) (i : ℤ) (range : KeyGroupRangeMeta) : TaskMeta where
  stateSHA256 := []
  taskID := id
  operatorID := "source"
  subtaskIndex := i
  keyGroupRange := range
  statePath := id
  stateSizeBytes := 0
  stateFiles := ["state"]

/-- Two operators in one chain, with two tasks. -/
def fullSample : CheckpointMetadata where
  schemaVersion := currentSchemaVersion
  isSavepoint := false
  checkpointID := 1
  jobID := "job"
  jobName := ""
  triggerTime := 0
  completionTime := 0
  durationMs := 0
  numKeyGroups := 8
  operators := [⟨"sink", .sink, 2, some "source"⟩, ⟨"source", .source, 2, none⟩]
  tasks := [sampleState "b" 1 ⟨3, 8⟩, sampleState "a" 0 ⟨0, 3⟩]
  sinkTxns := []

theorem validateComplete_fullCopy_sample :
    fullSample.validateComplete = .ok () ∧ fullSample.FullCopy :=
  ⟨by decide, (validateComplete_fullCopy fullSample).2 (by decide)⟩

end Wire.Planner.Manifest
