import Wire.Planner.Wiring

/-!
# The plan describes the graph

The chains, the tasks and the links put together: what `buildPhysicalTasks` returns for a graph that
it accepts.  A task is found by the chain it runs and its subtask index, since a chain is not empty
and no operator is in two of them.
-/

namespace Wire.Planner

open Guard List Function

/-! ## The pass over the edges -/

variable {tasks : List TaskDescriptor} {e : EdgeDescriptor} {c : ℕ} {ch : PhysicalChain}

section Edges

variable {count : ℕ} {chains : Chains} {indexes : List (List ℕ)} {placed : List TaskDescriptor}

/-- The edge joins the chain to another one. -/
def Chains.Leaves (chains : Chains) (c : ℕ) (e : EdgeDescriptor) : Prop :=
  chains.chainOf e.source = c ∧ chains.chainOf e.target ≠ c

instance (chains : Chains) (c : ℕ) (e : EdgeDescriptor) : Decidable (chains.Leaves c e) :=
  inferInstanceAs (Decidable (_ ∧ _))

/-- The links of an edge. -/
def edgeLinks (chains : Chains) (indexes : List (List ℕ)) (e : EdgeDescriptor) : List Link :=
  if chains.chainOf e.source = chains.chainOf e.target then []
  else links (e.normalized.shuffle = .forward) (indexes[chains.chainOf e.source]?.getD [])
    (indexes[chains.chainOf e.target]?.getD [])

/-- What the pass over the edges has done after some of them. -/
structure Joined (count : ℕ) (chains : Chains) (indexes : List (List ℕ))
    (placed : List TaskDescriptor) (passed : List EdgeDescriptor) (s : Boundaries) : Prop where
  wired : Wired placed (passed.flatMap (edgeLinks chains indexes)) s.tasks
  counted : ∀ c, s.boundaryCount c = passed.countP fun e => chains.Leaves c e
  once : ∀ c, (passed.countP fun e => chains.Leaves c e) ≤ 1
  equal : ∀ e ∈ passed, chains.Leaves (chains.chainOf e.source) e →
    e.normalized.shuffle = .forward →
      (indexes[chains.chainOf e.source]?.getD []).length =
        (indexes[chains.chainOf e.target]?.getD []).length
  routed : ∀ e ∈ passed, chains.Leaves (chains.chainOf e.source) e →
    e.normalized.shuffle = .hash → ∀ x ∈ indexes[chains.chainOf e.source]?.getD [],
      ∀ t, s.tasks[x]? = some t → t.outputKeyGroups = count

/-- The output key groups of a task are not lost. -/
def KeepsOutput (count : ℕ) (tasks tasks' : List TaskDescriptor) : Prop :=
  ∀ (x : ℕ) t', tasks'[x]? = some t' →
    ∃ t, tasks[x]? = some t ∧ (t.outputKeyGroups = count → t'.outputKeyGroups = count)

theorem KeepsOutput.refl (tasks : List TaskDescriptor) : KeepsOutput count tasks tasks :=
  fun _ t ht => ⟨t, ht, id⟩

theorem KeepsOutput.trans {a b c : List TaskDescriptor} (h : KeepsOutput count a b)
    (h' : KeepsOutput count b c) : KeepsOutput count a c := by
  intro x t'' ht''
  obtain ⟨t', ht', hkeep'⟩ := h' x t'' ht''
  obtain ⟨t, ht, hkeep⟩ := h x t' ht'
  exact ⟨t, ht, hkeep' ∘ hkeep⟩

theorem KeepsOutput.modify {f : TaskDescriptor → TaskDescriptor} (tasks : List TaskDescriptor)
    (i : ℕ) (hf : ∀ t, t.outputKeyGroups = count → (f t).outputKeyGroups = count) :
    KeepsOutput count tasks (tasks.modify i f) := by
  intro x t' ht'
  rw [getElem?_modify] at ht'
  obtain ⟨t, ht, rfl⟩ := Option.map_eq_some_iff.mp ht'
  refine ⟨t, ht, fun hcount => ?_⟩
  split
  · exact hf t hcount
  · exact hcount

variable {tasks' : List TaskDescriptor} {added : List Link} {s s' : Boundaries}

theorem KeepsOutput.links {l : List Link}
    (h : l.foldlM link tasks = .ok tasks') : KeepsOutput count tasks tasks' := by
  refine foldlM_invariant (fun _ => KeepsOutput count tasks) ?_ (.refl tasks) h
  intro _ l a b hab hlink
  simp only [link, bind_eq_ok, require_eq_ok, pure_eq_ok] at hlink
  obtain ⟨-, -, rfl⟩ := hlink
  refine (hab.trans (.modify a l.src ?_)).trans (.modify _ l.dst ?_)
  · exact fun _ hcount => hcount
  · exact fun _ hcount => hcount

/-- All the tasks of the source of a hash edge route by key. -/
theorem routeByKey_sources (count : ℕ) (sources : List ℕ) (tasks : List TaskDescriptor) :
    let tasks' := sources.foldl (fun ts src => ts.modify src (.routeByKey count)) tasks
    KeepsOutput count tasks tasks' ∧
      ∀ x ∈ sources, ∀ t, tasks'[x]? = some t → t.outputKeyGroups = count := by
  induction sources generalizing tasks with
  | nil => exact ⟨.refl tasks, fun x hx => absurd hx not_mem_nil⟩
  | cons src sources ih =>
    obtain ⟨hkeep, hset⟩ := ih (tasks.modify src (.routeByKey count))
    have hfirst : KeepsOutput count tasks (tasks.modify src (.routeByKey count)) :=
      .modify tasks src fun _ _ => rfl
    refine ⟨hfirst.trans hkeep, ?_⟩
    intro x hx t ht
    rcases mem_cons.mp hx with rfl | hrest
    · obtain ⟨t₁, ht₁, hcount⟩ := hkeep x t ht
      rw [getElem?_modify_eq] at ht₁
      obtain ⟨t₀, -, rfl⟩ := Option.map_eq_some_iff.mp ht₁
      exact hcount rfl
    · exact hset x hrest t ht

theorem Wired.routeByKey_sources (h : Wired placed added tasks) (sources : List ℕ) :
    Wired placed added (sources.foldl (fun ts src => ts.modify src (.routeByKey count)) tasks) := by
  induction sources generalizing tasks with
  | nil => exact h
  | cons src sources ih => exact ih (h.routeByKey count src)

/-- What an edge between two chains does. -/
theorem join_eq_ok {sources targets : List ℕ} {edge : EdgeDescriptor}
    (h : Boundaries.join count sources targets edge tasks = .ok tasks')
    (hwired : Wired placed added tasks)
    (hlinks : ∀ l ∈ links (edge.shuffle = .forward) sources targets, ∃ s t, l.Between placed s t) :
    Wired placed (added ++ links (edge.shuffle = .forward) sources targets) tasks' ∧
      KeepsOutput count tasks tasks' ∧
      (edge.shuffle = .forward → sources.length = targets.length) ∧
      (edge.shuffle = .hash →
        ∀ x ∈ sources, ∀ t, tasks'[x]? = some t → t.outputKeyGroups = count) := by
  simp only [Boundaries.join, bind_eq_ok, require_eq_ok] at h
  obtain ⟨-, -, -, -, -, hequal, hjoin⟩ := h
  have hkeep : KeepsOutput count _ tasks' := .links hjoin
  by_cases hhash : edge.shuffle = .hash
  · rw [if_pos hhash] at hjoin hkeep
    obtain ⟨hkeep₀, hset⟩ := Planner.routeByKey_sources count sources tasks
    refine ⟨(hwired.routeByKey_sources sources).links hlinks hjoin, hkeep₀.trans hkeep, hequal, ?_⟩
    intro _ x hx t ht
    obtain ⟨t₁, ht₁, hcount⟩ := hkeep x t ht
    exact hcount (hset x hx t₁ ht₁)
  · rw [if_neg hhash] at hjoin hkeep
    exact ⟨hwired.links hlinks hjoin, hkeep, hequal, fun h => absurd h hhash⟩

theorem Joined.addEdge {passed : List EdgeDescriptor}
    (h : Joined count chains indexes placed passed s)
    (hlinks : ∀ l ∈ edgeLinks chains indexes e, ∃ s t, l.Between placed s t)
    (hadd : s.addEdge count chains indexes e = .ok s') :
    Joined count chains indexes placed (passed ++ [e]) s' := by
  rw [Boundaries.addEdge] at hadd
  simp only [EdgeDescriptor.normalized_source, EdgeDescriptor.normalized_target] at hadd
  have hflat : (passed ++ [e]).flatMap (edgeLinks chains indexes) =
      passed.flatMap (edgeLinks chains indexes) ++ edgeLinks chains indexes e := by
    rw [flatMap_append, flatMap_singleton]
  by_cases hsame : chains.chainOf e.source = chains.chainOf e.target
  · rw [if_pos hsame] at hadd
    cases hadd
    have hleaves : ∀ c, ¬ chains.Leaves c e := by
      rintro c ⟨hc, hne⟩
      exact hne (hsame.symm.trans hc)
    have hcount : ∀ c, ((passed ++ [e]).countP fun e => chains.Leaves c e) =
        passed.countP fun e => chains.Leaves c e := by
      intro c
      rw [countP_append, countP_singleton, if_neg (by simpa using hleaves c), add_zero]
    constructor
    · rw [hflat, edgeLinks, if_pos hsame, append_nil]
      exact h.wired
    · exact fun c => (h.counted c).trans (hcount c).symm
    · exact fun c => (hcount c).le.trans (h.once c)
    · intro e' he' hl
      rcases mem_append.mp he' with hold | hnew
      · exact h.equal e' hold hl
      · exact absurd (mem_singleton.mp hnew ▸ hl) (hleaves _)
    · intro e' he' hl
      rcases mem_append.mp he' with hold | hnew
      · exact h.routed e' hold hl
      · exact absurd (mem_singleton.mp hnew ▸ hl) (hleaves _)
  · rw [if_neg hsame] at hadd
    simp only [bind_eq_ok, require_eq_ok, pure_eq_ok] at hadd
    obtain ⟨-, hone, tasks', hjoin, rfl⟩ := hadd
    rw [edgeLinks, if_neg hsame] at hlinks hflat
    obtain ⟨hwired, hkeep, hequal, hrouted⟩ := join_eq_ok hjoin h.wired hlinks
    have hcount : ∀ c, ((passed ++ [e]).countP fun e => chains.Leaves c e) =
        update s.boundaryCount (chains.chainOf e.source)
          (s.boundaryCount (chains.chainOf e.source) + 1) c := by
      intro c
      rw [countP_append, countP_singleton, ← h.counted c]
      by_cases hc : c = chains.chainOf e.source
      · subst hc
        rw [update_self, if_pos (decide_eq_true ⟨rfl, Ne.symm hsame⟩)]
      · rw [update_of_ne hc, if_neg]
        · rfl
        · intro hl
          exact hc (of_decide_eq_true hl).1.symm
    constructor
    · rw [hflat]
      exact hwired
    · exact fun c => (hcount c).symm
    · intro c
      rw [hcount c]
      by_cases hc : c = chains.chainOf e.source
      · subst hc
        rw [update_self]
        exact hone
      · rw [update_of_ne hc, h.counted c]
        exact h.once c
    · intro e' he' hl
      rcases mem_append.mp he' with hold | hnew
      · exact h.equal e' hold hl
      · rw [mem_singleton.mp hnew]
        exact hequal
    · intro e' he' hl hhash x hx t ht
      rcases mem_append.mp he' with hold | hnew
      · obtain ⟨t₀, ht₀, hcount⟩ := hkeep x t ht
        exact hcount (h.routed e' hold hl hhash x hx t₀ ht₀)
      · rw [mem_singleton.mp hnew] at hhash hx
        exact hrouted hhash x hx t ht

theorem joined_of_edges {edges : List EdgeDescriptor} {done}
    (h : Joined count chains indexes placed done s)
    (hlinks : ∀ e ∈ edges, ∀ l ∈ edgeLinks chains indexes e, ∃ s t, l.Between placed s t)
    (hadd : edges.foldlM (Boundaries.addEdge count chains indexes) s = .ok s') :
    Joined count chains indexes placed (done ++ edges) s' := by
  induction edges generalizing done s with
  | nil =>
    rw [foldlM_nil, pure_eq_ok] at hadd
    rw [append_nil, ← hadd]
    exact h
  | cons e edges ih =>
    rw [foldlM_cons, bind_eq_ok] at hadd
    obtain ⟨s₁, hs, hrest⟩ := hadd
    obtain ⟨he, hlinks⟩ := forall_mem_cons.mp hlinks
    have := ih (h.addEdge he hs) hlinks hrest
    rwa [append_assoc, singleton_append] at this

end Edges

/-! ## Chains and tasks -/

/-- Everything that `buildPhysicalTasks` computes on the way to the tasks. -/
structure Plan (jobID : String) (g : JobGraph) (defaultParallelism : ℤ) (count : ℕ)
    (chains : Chains) (placed : Tasks) (tasks : List TaskDescriptor) : Prop where
  chained : chains.Inv g defaultParallelism g.operators
  distinct : g.ids.Nodup
  known : ∀ e ∈ g.edges, e.source ∈ g.ids ∧ e.target ∈ g.ids
  layout : Layout jobID count chains.chains placed
  joined : ∃ s : Boundaries, s.tasks = tasks ∧
    Joined count chains placed.indexes placed.tasks g.edges s

variable {s t : TaskDescriptor} {operators : List OperatorDescriptor}

section Plan

variable {jobID : String} {g : JobGraph} {defaultParallelism : ℤ} {count : ℕ} {chains : Chains}
  {placed : Tasks} {tasks : List TaskDescriptor}

/-- An operator of the graph is in the chain that the membership says. -/
theorem Chains.Inv.exists_chain (h : chains.Inv g defaultParallelism g.operators) {id : String}
    (hid : id ∈ g.ids) : ∃ ch, chains.chains[chains.chainOf id]? = some ch ∧
      id ∈ ch.operators.map OperatorDescriptor.operatorID := by
  obtain ⟨op, hop, rfl⟩ := mem_map.mp hid
  obtain ⟨ch, hch, hin⟩ := mem_flatMap.mp (h.perm.mem_iff.mpr hop)
  obtain ⟨c, hc⟩ := mem_iff_getElem?.mp hch
  have hmember := (h.member op.operatorID c).mpr ⟨op, ⟨ch, hc, hin⟩, rfl⟩
  refine ⟨ch, ?_, mem_map_of_mem hin⟩
  rw [Chains.chainOf, hmember]
  exact hc

section

variable (h : chains.Inv g defaultParallelism operators)
include h

theorem Chains.Inv.chainOf_eq {id : String} (hc : chains.chains[c]? = some ch)
    (hid : id ∈ ch.operators.map OperatorDescriptor.operatorID) : chains.chainOf id = c := by
  obtain ⟨op, hop, rfl⟩ := mem_map.mp hid
  rw [Chains.chainOf, (h.member op.operatorID c).mpr ⟨op, ⟨ch, hc, hop⟩, rfl⟩]
  rfl

variable {c' : ℕ}

/-- Two chains with a common operator are one. -/
theorem Chains.Inv.index_unique {op : OperatorDescriptor} (hc : Located chains.chains c op)
    (hc' : Located chains.chains c' op) : c = c' := by
  have hm := (h.member op.operatorID c).mpr ⟨op, hc, rfl⟩
  have hm' := (h.member op.operatorID c').mpr ⟨op, hc', rfl⟩
  exact Option.some.inj (hm.symm.trans hm')

theorem Chains.Inv.index_of_operators {ch' : PhysicalChain}
    (hc : chains.chains[c]? = some ch) (hc' : chains.chains[c']? = some ch')
    (heq : ch.operators = ch'.operators) : c = c' := by
  obtain ⟨op, hop⟩ := exists_mem_of_ne_nil _ (h.sound ch (mem_of_getElem? hc)).nonempty
  exact h.index_unique ⟨ch, hc, hop⟩ ⟨ch', hc', heq ▸ hop⟩

end

variable {l : Link} {x : ℕ}

/-- Every link is one between two subtasks. -/
theorem between_of_mem_edgeLinks (hchains : chains.Inv g defaultParallelism g.operators)
    (hlayout : Layout jobID count chains.chains placed)
    (hknown : e.source ∈ g.ids ∧ e.target ∈ g.ids) (hl : l ∈ edgeLinks chains placed.indexes e) :
    ∃ ch dh : PhysicalChain, chains.chains[chains.chainOf e.source]? = some ch ∧
      chains.chains[chains.chainOf e.target]? = some dh ∧
      chains.chainOf e.source ≠ chains.chainOf e.target ∧
      l.Between placed.tasks (subtask jobID count ch l.si) (subtask jobID count dh l.ti) := by
  obtain ⟨ch, hch, -⟩ := hchains.exists_chain hknown.1
  obtain ⟨dh, hdh, -⟩ := hchains.exists_chain hknown.2
  obtain ⟨a, ha, hsrc⟩ := hlayout.index _ _ hch
  obtain ⟨b, hb, hdst⟩ := hlayout.index _ _ hdh
  rw [edgeLinks] at hl
  split at hl
  · exact absurd hl not_mem_nil
  · next hne =>
    rw [ha, hb, Option.getD_some, Option.getD_some] at hl
    obtain ⟨hp, hq, hls, hld, -⟩ := mem_links.mp hl
    exact ⟨ch, dh, hch, hdh, hne, ⟨hls ▸ hsrc _ hp, hld ▸ hdst _ hq, rfl, rfl⟩⟩

section

variable (h : buildPhysicalTasks jobID g defaultParallelism = .ok tasks)
include h

/-- **What `buildPhysicalTasks` computes**, with the number of key groups. -/
theorem plan_of_groups :
    ∃ count chains placed, validateGraphKeyGroups g defaultParallelism = .ok count ∧
      planPhysicalChains g defaultParallelism = .ok chains ∧
        Plan jobID g defaultParallelism count chains placed tasks := by
  simp only [buildPhysicalTasks, bind_eq_ok, pure_eq_ok] at h
  obtain ⟨count, hcount, chains, hchains, placed, hplaced, s, hs, rfl⟩ := h
  obtain ⟨hinv, hdistinct, hknown⟩ := planPhysicalChains_inv hchains
  have hlayout := layout_of_chains hplaced
  refine ⟨count, chains, placed, hcount, hchains, hinv, hdistinct, hknown, hlayout, s, rfl, ?_⟩
  have hstart : Joined count chains placed.indexes placed.tasks [] { tasks := placed.tasks } := by
    have hbare : ∀ (i : ℕ) t, placed.tasks[i]? = some t → t.bare = t ∧ t.upstream = [] ∧
        t.downstream = [] := by
      intro i t ht
      have hmem := mem_of_getElem? ht
      rw [hlayout.tasks_eq] at hmem
      obtain ⟨ch, -, hch⟩ := mem_flatMap.mp hmem
      obtain ⟨j, -, rfl⟩ := mem_map.mp hch
      exact ⟨rfl, rfl, rfl⟩
    refine ⟨⟨?_, ?_, ?_, ?_, ?_⟩, fun c => rfl, fun c => Nat.zero_le 1,
      fun e he => absurd he not_mem_nil, fun e he => absurd he not_mem_nil⟩
    · intro i
      cases ht : placed.tasks[i]? with
      | none => rfl
      | some t => rw [Option.map_some, (hbare i t ht).1]
    · intro i t ht
      rw [(hbare i t ht).2.2]
      rfl
    · intro j t ht k u hu
      rw [(hbare j t ht).2.1] at hu
      cases hu
    · intro i t ht e he
      rw [(hbare i t ht).2.2] at he
      exact absurd he not_mem_nil
    · intro j t ht u hu
      rw [(hbare j t ht).2.1] at hu
      exact absurd hu not_mem_nil
  have hlinks : ∀ e ∈ g.edges, ∀ l ∈ edgeLinks chains placed.indexes e,
      ∃ s t, l.Between placed.tasks s t := by
    intro e he l hl
    obtain ⟨ch, dh, -, -, -, hbetween⟩ :=
      between_of_mem_edgeLinks hinv hlayout (hknown e he) hl
    exact ⟨_, _, hbetween⟩
  exact nil_append g.edges ▸ joined_of_edges hstart hlinks hs

/-- **What `buildPhysicalTasks` computes.** -/
theorem plan_of_build :
    ∃ count chains placed, planPhysicalChains g defaultParallelism = .ok chains ∧
      Plan jobID g defaultParallelism count chains placed tasks := by
  obtain ⟨count, chains, placed, -, hchains, hplan⟩ := plan_of_groups h
  exact ⟨count, chains, placed, hchains, hplan⟩

end

theorem PhysicalChain.primary_mem (h : ch.operators ≠ []) :
    ch.primary ∈ ch.operators.map OperatorDescriptor.operatorID := by
  refine mem_map_of_mem ?_
  cases hfind : ch.operators.find? fun op => op.type ≠ .source with
  | some op => exact mem_of_find?_eq_some hfind
  | none =>
    obtain ⟨op, rest, hcons⟩ := exists_cons_of_ne_nil h
    rw [hcons]
    exact mem_cons_self

theorem primary_nodup (h : chains.Inv g defaultParallelism g.operators) :
    (chains.chains.map PhysicalChain.primary).Nodup := by
  rw [Nodup, pairwise_map, pairwise_iff_getElem]
  intro i j hi hj hlt heq
  have hci : chains.chains[i]? = some chains.chains[i] := getElem?_eq_getElem hi
  have hcj : chains.chains[j]? = some chains.chains[j] := getElem?_eq_getElem hj
  have hmi := PhysicalChain.primary_mem (h.sound _ (getElem_mem hi)).nonempty
  have hmj := PhysicalChain.primary_mem (h.sound _ (getElem_mem hj)).nonempty
  have hij : i = j := by
    rw [← h.chainOf_eq hci hmi, heq, h.chainOf_eq hcj hmj]
  exact hlt.ne hij

section

variable (h : Plan jobID g defaultParallelism count chains placed tasks)
include h

theorem Plan.nodup_placed : (placed.tasks.map TaskDescriptor.taskID).Nodup := by
  rw [h.layout.tasks_eq, map_flatMap, nodup_flatMap]
  constructor
  · intro ch _
    rw [subtasks, map_map]
    exact nodup_range.map fun i j hij => (taskID_inj hij).2
  · refine (pairwise_map.mp (primary_nodup h.chained)).imp ?_
    intro ch ch' hne
    rw [onFun, disjoint_left]
    intro id hid hid'
    simp only [subtasks, map_map, mem_map, comp_apply] at hid hid'
    obtain ⟨i, -, rfl⟩ := hid
    obtain ⟨j, -, hij⟩ := hid'
    exact hne (taskID_inj hij).1.symm

theorem Plan.map_taskID :
    tasks.map TaskDescriptor.taskID = placed.tasks.map TaskDescriptor.taskID := by
  obtain ⟨s, rfl, hjoined⟩ := h.joined
  refine ext_getElem? fun i => ?_
  rw [getElem?_map, getElem?_map, ← hjoined.wired.same i, Option.map_map]
  rfl

/-- **No two tasks have one identifier.** -/
theorem Plan.nodup_taskID : (tasks.map TaskDescriptor.taskID).Nodup :=
  h.map_taskID ▸ h.nodup_placed

theorem Plan.index_of_name {x y : ℕ} (hx : tasks[x]? = some s) (hy : tasks[y]? = some t)
    (hname : s.name = t.name) : x = y := by
  have hx' : (tasks.map TaskDescriptor.taskID)[x]? = some s.taskID := by
    rw [getElem?_map, hx]
    rfl
  have hid : s.taskID = t.taskID := congrArg Prod.fst hname
  have hy' : (tasks.map TaskDescriptor.taskID)[y]? = some s.taskID := by
    rw [getElem?_map, hy, hid]
    rfl
  have hlt := (List.getElem?_eq_some_iff.mp hx').1
  exact (getElem?_inj hlt h.nodup_taskID).mp (hx'.trans hy'.symm)

/-- The task that runs a subtask of a chain. -/
theorem Plan.exists_task (hc : chains.chains[c]? = some ch) :
    ∃ base, placed.indexes[c]? = some (range' base ch.parallelism) ∧
      ∀ i < ch.parallelism, placed.tasks[base + i]? = some (subtask jobID count ch i) ∧
        ∃ t, tasks[base + i]? = some t ∧ t.bare = subtask jobID count ch i := by
  obtain ⟨s, rfl, hjoined⟩ := h.joined
  obtain ⟨base, hidx, htasks⟩ := h.layout.index c ch hc
  exact ⟨base, hidx, fun i hi => ⟨htasks i hi, hjoined.wired.exists_task (htasks i hi)⟩⟩

/-- A task of the plan is a subtask of a chain. -/
theorem Plan.exists_chain (ht : t ∈ tasks) :
    ∃ (c : ℕ) (ch : PhysicalChain), chains.chains[c]? = some ch ∧
      t.subtaskIndex < ch.parallelism ∧ t.bare = subtask jobID count ch t.subtaskIndex := by
  obtain ⟨s, rfl, hjoined⟩ := h.joined
  obtain ⟨x, hx⟩ := mem_iff_getElem?.mp ht
  have hsame := hjoined.wired.same x
  rw [hx, Option.map_some] at hsame
  have hmem := mem_of_getElem? hsame.symm
  rw [h.layout.tasks_eq] at hmem
  obtain ⟨ch, hch, hsub⟩ := mem_flatMap.mp hmem
  obtain ⟨i, hi, hbare⟩ := mem_map.mp hsub
  obtain ⟨c, hc⟩ := mem_iff_getElem?.mp hch
  have hindex : t.subtaskIndex = i := congrArg TaskDescriptor.subtaskIndex hbare.symm
  exact ⟨c, ch, hc, hindex ▸ mem_range.mp hi, hindex ▸ hbare.symm⟩

end

/-! ## Boundaries -/

/-- An edge is the only one that leaves its chain: no other edge has a link from there. -/
theorem Plan.links_from (h : Plan jobID g defaultParallelism count chains placed tasks)
    (hc : chains.chains[c]? = some ch) {i : ℕ}
    (hidx : placed.tasks[x]? = some (subtask jobID count ch i)) (he : e ∈ g.edges)
    (hl : l ∈ edgeLinks chains placed.indexes e) (hsrc : l.src = x) : chains.Leaves c e := by
  obtain ⟨ch', dh, hch', -, hne, hbetween⟩ :=
    between_of_mem_edgeLinks h.chained h.layout (h.known e he) hl
  have heq : subtask jobID count ch' l.si = subtask jobID count ch i :=
    Option.some.inj (hbetween.src.symm.trans (hsrc ▸ hidx))
  have hsame := h.chained.index_of_operators hch' hc (congrArg TaskDescriptor.operatorChain heq)
  exact ⟨hsame, fun htarget => hne (hsame.trans htarget.symm)⟩

theorem filter_flatMap_eq_nil {passed : List EdgeDescriptor} {indexes : List (List ℕ)}
    (h : ∀ e ∈ passed, ∀ l ∈ edgeLinks chains indexes e, l.src ≠ x) :
    ((passed.flatMap (edgeLinks chains indexes)).filter fun l => l.src = x) = [] := by
  refine filter_eq_nil_iff.mpr fun l hl hx => ?_
  obtain ⟨e, he, hle⟩ := mem_flatMap.mp hl
  exact h e he l hle (of_decide_eq_true hx)

section

variable (h : Plan jobID g defaultParallelism count chains placed tasks)
include h

/-- **The `Downstream` list of a task** that an edge leaves: the subtasks of the target, in order,
all of them or the one with the same index. -/
theorem Plan.downstream (he : e ∈ g.edges) {d : ℕ} {dh : PhysicalChain}
    (hc : chains.chains[c]? = some ch) (hd : chains.chains[d]? = some dh)
    (hsource : chains.chainOf e.source = c) (htarget : chains.chainOf e.target = d) (hne : c ≠ d)
    (ht : t ∈ tasks) (hbare : t.bare = subtask jobID count ch t.subtaskIndex)
    (hi : t.subtaskIndex < ch.parallelism) : t.downstream.map DownstreamChannelInfo.name =
      ((range dh.parallelism).filter fun ti =>
        !(decide (e.normalized.shuffle = .forward) && t.subtaskIndex != ti)).map fun ti =>
          (subtask jobID count dh ti).name := by
  obtain ⟨base, hidx, htasks⟩ := h.exists_task hc
  obtain ⟨target, hdidx, hdplaced⟩ := h.layout.index d dh hd
  obtain ⟨hplaced, t', ht', hbare'⟩ := htasks _ hi
  obtain ⟨x, hx⟩ := mem_iff_getElem?.mp ht
  have hname : t.name = t'.name := by
    rw [TaskDescriptor.name_of_bare hbare, TaskDescriptor.name_of_bare hbare']
  obtain rfl := h.index_of_name hx ht' hname
  obtain ⟨s, rfl, hjoined⟩ := h.joined
  rw [hjoined.wired.targets _ t hx]
  -- only the links of this edge start here
  obtain ⟨before, after, hsplit⟩ := append_of_mem he
  have hleaves : chains.Leaves c e := ⟨hsource, fun hcc => hne (hcc.symm.trans htarget)⟩
  have hothers : ∀ e' ∈ before ++ after, ¬ chains.Leaves c e' := by
    have honce := hjoined.once c
    rw [hsplit, countP_append, countP_cons, if_pos (decide_eq_true hleaves)] at honce
    have hzero : ((before ++ after).countP fun e => chains.Leaves c e) = 0 := by
      rw [countP_append]
      omega
    intro e' he' hl
    exact countP_eq_zero.mp hzero e' he' (decide_eq_true hl)
  have hnone : ∀ e' ∈ before ++ after, ∀ l ∈ edgeLinks chains placed.indexes e',
      l.src ≠ base + t.subtaskIndex := by
    intro e' he' l hl hsrc
    have hmem : e' ∈ g.edges := by
      rw [hsplit]
      rcases mem_append.mp he' with hb | ha
      · exact mem_append_left _ hb
      · exact mem_append_right _ (mem_cons_of_mem e ha)
    exact hothers e' he' (h.links_from hc hplaced hmem hl hsrc)
  have hedge : edgeLinks chains placed.indexes e =
      links (e.normalized.shuffle = .forward) (range' base ch.parallelism)
        (range' target dh.parallelism) := by
    rw [edgeLinks, if_neg (by rw [hsource, htarget]; exact hne), hsource, htarget, hidx, hdidx]
    rfl
  rw [hsplit, flatMap_append, flatMap_cons, filter_append, filter_append,
    filter_flatMap_eq_nil fun e' he' => hnone e' (mem_append_left _ he'),
    filter_flatMap_eq_nil fun e' he' => hnone e' (mem_append_right _ he'), nil_append,
    append_nil, hedge, links_filter hi, map_map]
  refine map_congr_left fun ti hti => ?_
  have hlt := mem_range.mp (mem_of_mem_filter hti)
  simp only [comp_apply, hdplaced ti hlt, Option.getD_some]

/-- A task that no edge leaves has no `Downstream` list. -/
theorem Plan.edge_of_downstream (ht : t ∈ tasks) (hc : chains.chains[c]? = some ch)
    (hbare : t.bare = subtask jobID count ch t.subtaskIndex) (hdown : t.downstream ≠ []) :
    ∃ e ∈ g.edges, chains.Leaves c e := by
  obtain ⟨s, rfl, hjoined⟩ := h.joined
  obtain ⟨x, hx⟩ := mem_iff_getElem?.mp ht
  have hplaced : placed.tasks[x]? = some (subtask jobID count ch t.subtaskIndex) := by
    rw [← hjoined.wired.same x, hx, Option.map_some, hbare]
  obtain ⟨d, hd⟩ := exists_mem_of_ne_nil _ hdown
  have hmem : d.name ∈ t.downstream.map DownstreamChannelInfo.name := mem_map_of_mem hd
  rw [hjoined.wired.targets x t hx] at hmem
  obtain ⟨l, hl, -⟩ := mem_map.mp hmem
  obtain ⟨hl, hsrc⟩ := mem_filter.mp hl
  obtain ⟨e, he, hle⟩ := mem_flatMap.mp hl
  exact ⟨e, he, h.links_from hc hplaced he hle (of_decide_eq_true hsrc)⟩

/-- A task of a chain, from the operators it runs. -/
theorem Plan.chain_of_task (ht : t ∈ tasks) {id : String}
    (hid : id ∈ t.operatorChain.map OperatorDescriptor.operatorID) :
    ∃ ch, chains.chains[chains.chainOf id]? = some ch ∧ ch.operators = t.operatorChain ∧
      t.subtaskIndex < ch.parallelism ∧ t.bare = subtask jobID count ch t.subtaskIndex := by
  obtain ⟨c, ch, hc, hi, hbare⟩ := h.exists_chain ht
  have hops : t.operatorChain = ch.operators := congrArg TaskDescriptor.operatorChain hbare
  rw [h.chained.chainOf_eq hc (hops ▸ hid)]
  exact ⟨ch, hc, hops.symm, hi, hbare⟩

/-- The subtasks that a task sends to are in order. -/
theorem Plan.ordered (ht : t ∈ tasks) :
    (t.downstream.map DownstreamChannelInfo.subtaskIndex).Pairwise (· < ·) := by
  by_cases hempty : t.downstream = []
  · rw [hempty]
    exact .nil
  obtain ⟨c, ch, hc, hi, hbare⟩ := h.exists_chain ht
  obtain ⟨e, he, hsource, htarget⟩ := h.edge_of_downstream ht hc hbare hempty
  obtain ⟨dh, hd, -⟩ := h.chained.exists_chain (h.known e he).2
  have hnames := h.downstream he hc hd hsource rfl (.symm htarget) ht hbare hi
  have hindexes := congrArg (map fun n : String × String × ℕ => n.2.2) hnames
  rw [map_map, map_map] at hindexes
  have hmap : t.downstream.map DownstreamChannelInfo.subtaskIndex = _ := hindexes
  rw [hmap]
  exact (map_id _).symm ▸ pairwise_lt_range.filter _

end

end Plan

/-! ## Faithfulness -/

/-- The first task sends to the second. -/
def TaskDescriptor.SendsTo (s t : TaskDescriptor) : Prop := ∃ e ∈ s.downstream, e.name = t.name

/-- An entry of the first task's `Downstream` list and an entry of the second task's `Upstream` list
name each other. -/
def Counterpart (s : TaskDescriptor) (d : ℕ) (t : TaskDescriptor) (k : ℕ) : Prop :=
  ∃ e u, s.downstream[d]? = some e ∧ t.upstream[k]? = some u ∧ e.name = t.name ∧ u.name = s.name ∧
    e.partitionIndex = k

/-- The operator is one of those that the task runs. -/
def TaskDescriptor.Runs (t : TaskDescriptor) (id : String) : Prop :=
  id ∈ t.operatorChain.map OperatorDescriptor.operatorID

instance (t : TaskDescriptor) (id : String) : Decidable (t.Runs id) :=
  inferInstanceAs (Decidable (id ∈ _))

/-- The chains and tasks are those of the graph. -/
structure Faithful (g : JobGraph) (defaultParallelism : ℤ) (chains : List PhysicalChain)
    (tasks : List TaskDescriptor) : Prop where
  operators : (chains.flatMap PhysicalChain.operators).Perm g.operators
  one_chain : ∀ op ∈ g.operators, ∃! c, Located chains c op
  path : ∀ ch ∈ chains, ch.operators.IsChain g.ForwardEdge
  parallel : ∀ ch ∈ chains, ∀ op ∈ ch.operators, op.effective defaultParallelism = ch.parallelism
  subtasks : (tasks.map fun t => (t.operatorChain, t.subtaskIndex)) =
    chains.flatMap fun ch => (range ch.parallelism).map fun i => (ch.operators, i)
  distinct : (tasks.map TaskDescriptor.taskID).Nodup
  /-- An edge between two chains joins the subtasks of one index, or all. -/
  joined : ∀ e ∈ g.edges, ∀ s ∈ tasks, ∀ t ∈ tasks, s.Runs e.source → t.Runs e.target →
    s.operatorChain ≠ t.operatorChain →
      (s.SendsTo t ↔ (e.normalized.shuffle = .forward → s.subtaskIndex = t.subtaskIndex))
  equal : ∀ e ∈ g.edges, ∀ s ∈ tasks, ∀ t ∈ tasks, s.Runs e.source → t.Runs e.target →
    s.operatorChain ≠ t.operatorChain → e.normalized.shuffle = .forward →
      s.parallelism = t.parallelism
  /-- Nothing else is joined. -/
  only : ∀ s ∈ tasks, ∀ t ∈ tasks, s.SendsTo t →
    s.operatorChain ≠ t.operatorChain ∧ ∃ e ∈ g.edges, s.Runs e.source ∧ t.Runs e.target
  /-- The entries of the lists correspond one to one. -/
  down : ∀ s ∈ tasks, ∀ d < s.downstream.length,
    ∃! end_ : TaskDescriptor × ℕ, end_.1 ∈ tasks ∧ Counterpart s d end_.1 end_.2
  up : ∀ t ∈ tasks, ∀ k < t.upstream.length,
    ∃! end_ : TaskDescriptor × ℕ, end_.1 ∈ tasks ∧ Counterpart end_.1 end_.2 t k
  position : ∀ t ∈ tasks, ∀ (k : ℕ) u, t.upstream[k]? = some u → u.partitionIndex = k
  ordered : ∀ t ∈ tasks, (t.downstream.map DownstreamChannelInfo.subtaskIndex).Pairwise (· < ·)

section Faithful

variable {jobID : String} {g : JobGraph} {defaultParallelism : ℤ} {count : ℕ} {chains : Chains}
  {placed : Tasks} {tasks : List TaskDescriptor}

section

variable (h : Plan jobID g defaultParallelism count chains placed tasks)
include h

theorem Plan.eq_of_name (hs : s ∈ tasks) (ht : t ∈ tasks) (hname : s.name = t.name) : s = t := by
  obtain ⟨x, hx⟩ := mem_iff_getElem?.mp hs
  obtain ⟨y, hy⟩ := mem_iff_getElem?.mp ht
  rw [h.index_of_name hx hy hname] at hx
  exact Option.some.inj (hx.symm.trans hy)

section

variable (he : e ∈ g.edges) (hs : s ∈ tasks) (ht : t ∈ tasks) (hsource : s.Runs e.source)
  (htarget : t.Runs e.target) (hne : s.operatorChain ≠ t.operatorChain)
include he hs ht hsource htarget hne

theorem Plan.joined_iff :
    s.SendsTo t ↔ (e.normalized.shuffle = .forward → s.subtaskIndex = t.subtaskIndex) := by
  obtain ⟨ch, hc, hops, hi, hbare⟩ := h.chain_of_task hs hsource
  obtain ⟨dh, hd, hdops, hj, hdbare⟩ := h.chain_of_task ht htarget
  have hcd : chains.chainOf e.source ≠ chains.chainOf e.target := by
    intro heq
    rw [heq, hd] at hc
    cases hc
    exact hne (hops.symm.trans hdops)
  have hnames := h.downstream he hc hd rfl rfl hcd hs hbare hi
  have hsends : s.SendsTo t ↔ t.name ∈ s.downstream.map DownstreamChannelInfo.name :=
    mem_map.symm
  have hname := TaskDescriptor.name_of_bare hdbare
  rw [hsends, hnames, hname, mem_map]
  constructor
  · rintro ⟨ti, hti, heq⟩ hforward
    have hindex : ti = t.subtaskIndex := congrArg (fun n => n.2.2) heq
    have hfilter := (mem_filter.mp hti).2
    simpa [hforward, hindex] using hfilter
  · intro hindex
    refine ⟨t.subtaskIndex, mem_filter.mpr ⟨mem_range.mpr hj, ?_⟩, rfl⟩
    simpa [imp_iff_not_or] using hindex

theorem Plan.equal
    (hforward : e.normalized.shuffle = .forward) : s.parallelism = t.parallelism := by
  obtain ⟨ch, hc, hops, -, hbare⟩ := h.chain_of_task hs hsource
  obtain ⟨dh, hd, hdops, -, hdbare⟩ := h.chain_of_task ht htarget
  obtain ⟨b, hj, hjoined⟩ := h.joined
  obtain ⟨a, ha, -⟩ := h.layout.index _ _ hc
  obtain ⟨a', ha', -⟩ := h.layout.index _ _ hd
  have hleaves : chains.Leaves (chains.chainOf e.source) e := by
    refine ⟨rfl, fun heq => hne ?_⟩
    rw [heq, hc] at hd
    cases hd
    exact hops.symm.trans hdops
  have hlen := hjoined.equal e he hleaves hforward
  rw [ha, ha', Option.getD_some, Option.getD_some, length_range', length_range'] at hlen
  have hsp : s.parallelism = ch.parallelism := congrArg TaskDescriptor.parallelism hbare
  have htp : t.parallelism = dh.parallelism := congrArg TaskDescriptor.parallelism hdbare
  rw [hsp, htp, hlen]

end

theorem Plan.only (hs : s ∈ tasks) (ht : t ∈ tasks) (hsends : s.SendsTo t) :
    s.operatorChain ≠ t.operatorChain ∧ ∃ e ∈ g.edges, s.Runs e.source ∧ t.Runs e.target := by
  obtain ⟨c, ch, hc, hi, hbare⟩ := h.exists_chain hs
  obtain ⟨d, hd, hname⟩ := hsends
  obtain ⟨e, he, hsource, htarget⟩ := h.edge_of_downstream hs hc hbare (ne_nil_of_mem hd)
  obtain ⟨ch', hc', hin⟩ := h.chained.exists_chain (h.known e he).1
  obtain ⟨dh, hdh, hdin⟩ := h.chained.exists_chain (h.known e he).2
  rw [hsource, hc] at hc'
  cases hc'
  have hnames := h.downstream he hc hdh hsource rfl (.symm htarget) hs hbare hi
  have hmem : t.name ∈ s.downstream.map DownstreamChannelInfo.name :=
    hname ▸ mem_map_of_mem hd
  rw [hnames] at hmem
  obtain ⟨ti, hti, heq⟩ := mem_map.mp hmem
  -- the task with this name is the subtask of the target chain
  obtain ⟨d', dh', hd', -, htbare⟩ := h.exists_chain ht
  have hprimary : dh.primary = dh'.primary :=
    congrArg (fun n => n.2.1) (heq.trans (TaskDescriptor.name_of_bare htbare))
  have hd'eq : chains.chainOf e.target = d' := by
    have hm := PhysicalChain.primary_mem (h.chained.sound _ (mem_of_getElem? hdh)).nonempty
    have hm' := PhysicalChain.primary_mem (h.chained.sound _ (mem_of_getElem? hd')).nonempty
    rw [← h.chained.chainOf_eq hdh hm, hprimary, h.chained.chainOf_eq hd' hm']
  rw [← hd'eq, hdh] at hd'
  cases hd'
  have hsops : s.operatorChain = ch.operators := congrArg TaskDescriptor.operatorChain hbare
  have htops : t.operatorChain = dh.operators := congrArg TaskDescriptor.operatorChain htbare
  refine ⟨fun hsame => htarget ?_, e, he, ?_, ?_⟩
  · exact h.chained.index_of_operators hdh hc (htops.symm.trans (hsame.symm.trans hsops))
  · rw [TaskDescriptor.Runs, hsops]
    exact hin
  · rw [TaskDescriptor.Runs, htops]
    exact hdin

theorem Plan.counterpart_down (hs : s ∈ tasks) {d : ℕ} (hd : d < s.downstream.length) :
    ∃! end_ : TaskDescriptor × ℕ, end_.1 ∈ tasks ∧ Counterpart s d end_.1 end_.2 := by
  have h' := h
  obtain ⟨b, rfl, hjoined⟩ := h'.joined
  obtain ⟨i, hi⟩ := mem_iff_getElem?.mp hs
  have he : s.downstream[d]? = some s.downstream[d] := getElem?_eq_getElem hd
  obtain ⟨j, t, u, ht, hname, hu, huname⟩ :=
    hjoined.wired.down i s hi _ (getElem_mem hd)
  refine ⟨(t, _), ⟨mem_of_getElem? ht, _, u, he, hu, hname, huname, rfl⟩, ?_⟩
  rintro ⟨t', k'⟩ ⟨ht', e', u', he', -, hname', -, hk'⟩
  cases he.symm.trans he'
  exact Prod.ext (h.eq_of_name ht' (mem_of_getElem? ht) (hname'.symm.trans hname)) hk'.symm

theorem Plan.counterpart_up (ht : t ∈ tasks) {k : ℕ} (hk : k < t.upstream.length) :
    ∃! end_ : TaskDescriptor × ℕ, end_.1 ∈ tasks ∧ Counterpart end_.1 end_.2 t k := by
  have h' := h
  obtain ⟨b, rfl, hjoined⟩ := h'.joined
  obtain ⟨j, hj⟩ := mem_iff_getElem?.mp ht
  have hu : t.upstream[k]? = some t.upstream[k] := getElem?_eq_getElem hk
  obtain ⟨i, s, e, hs, huname, he, hname, hindex⟩ :=
    hjoined.wired.up j t hj _ (getElem_mem hk)
  obtain ⟨d, hd⟩ := mem_iff_getElem?.mp he
  have hposition := hjoined.wired.position j t hj k _ hu
  refine ⟨(s, d), ⟨mem_of_getElem? hs, e, _, hd, hu, hname, huname, hindex.trans hposition⟩, ?_⟩
  rintro ⟨s', d'⟩ ⟨hs', e', u', hd', hu', hname', huname', -⟩
  cases hu.symm.trans hu'
  obtain rfl := h.eq_of_name hs' (mem_of_getElem? hs) (huname'.symm.trans huname)
  -- the entries of one list are for different subtasks
  have hsorted := h.ordered (mem_of_getElem? hs)
  have hnodup := hsorted.imp fun hlt => hlt.ne
  have hx : (s'.downstream.map DownstreamChannelInfo.subtaskIndex)[d]? = some t.subtaskIndex := by
    rw [getElem?_map, hd]
    exact congrArg (fun n => some n.2.2) hname
  have hx' : (s'.downstream.map DownstreamChannelInfo.subtaskIndex)[d']? = some t.subtaskIndex := by
    rw [getElem?_map, hd']
    exact congrArg (fun n => some n.2.2) hname'
  have hlt := (List.getElem?_eq_some_iff.mp hx').1
  exact Prod.ext rfl ((getElem?_inj hlt hnodup).mp (hx'.trans hx.symm))

end

/-- **The plan describes the graph.**  Whatever graph and default parallelism `buildPhysicalTasks`
accepts, every operator is in one chain, a chain is a path of forward edges between operators of one
parallelism, the edges between chains join the subtasks that they should and nothing else does, and
the lists of the tasks fit together. -/
theorem faithful_of_build (h : buildPhysicalTasks jobID g defaultParallelism = .ok tasks) :
    ∃ chains, planPhysicalChains g defaultParallelism = .ok chains ∧
      Faithful g defaultParallelism chains.chains tasks := by
  obtain ⟨count, chains, placed, hchains, hplan⟩ := plan_of_build h
  obtain ⟨b, hb, hjoined⟩ := hplan.joined
  refine ⟨chains, hchains, ?_⟩
  constructor
  · exact hplan.chained.perm
  · intro op hop
    obtain ⟨ch, hch, hin⟩ := mem_flatMap.mp (hplan.chained.perm.mem_iff.mpr hop)
    obtain ⟨c, hc⟩ := mem_iff_getElem?.mp hch
    exact ⟨c, ⟨ch, hc, hin⟩, fun c' hc' => hplan.chained.index_unique hc' ⟨ch, hc, hin⟩⟩
  · exact fun ch hch => (hplan.chained.sound ch hch).path.imp fun _ _ => JobGraph.Fused.forwardEdge
  · exact fun ch hch => (hplan.chained.sound ch hch).parallel
  · have hbare : tasks.map .bare = placed.tasks := by
      refine ext_getElem? fun i => ?_
      rw [getElem?_map, ← hb, hjoined.wired.same i]
    have hpairs := congrArg (map fun t => (t.operatorChain, t.subtaskIndex)) hbare
    rw [hplan.layout.tasks_eq, map_map, map_flatMap] at hpairs
    refine hpairs.trans (flatMap_congr fun ch _ => ?_)
    rw [Planner.subtasks, map_map]
    rfl
  · exact hplan.nodup_taskID
  · exact fun e he s hs t ht => hplan.joined_iff he hs ht
  · exact fun e he s hs t ht => hplan.equal he hs ht
  · exact fun s hs t ht => hplan.only hs ht
  · exact fun s hs d hd => hplan.counterpart_down hs hd
  · exact fun t ht k hk => hplan.counterpart_up ht hk
  · intro t ht
    obtain ⟨j, hj⟩ := mem_iff_getElem?.mp ht
    exact hjoined.wired.position j t (hb ▸ hj)
  · exact fun t ht => hplan.ordered ht

/-- A source with a map behind it, sent by key to a sink with more subtasks. -/
def sampleGraph : JobGraph where
  operators := [⟨"k", .sink, 3, none, 0⟩, ⟨"s", .source, 0, none, 0⟩, ⟨"m", .map, 2, none, 0⟩]
  edges := [⟨"s", "m", .unknown, ""⟩, ⟨"m", "k", .hash, ""⟩]

theorem faithful_of_build_sample :
    ∃ tasks, buildPhysicalTasks "job" sampleGraph 2 = .ok tasks ∧ tasks.length = 5 ∧
      ∃ chains, planPhysicalChains sampleGraph 2 = .ok chains ∧
        Faithful sampleGraph 2 chains.chains tasks := by
  obtain ⟨tasks, htasks, hlen⟩ :=
    exists_ok (m := buildPhysicalTasks "job" sampleGraph 2) (p := fun ts => ts.length = 5)
      (by decide)
  exact ⟨tasks, htasks, hlen, faithful_of_build htasks⟩

end Faithful

end Wire.Planner
