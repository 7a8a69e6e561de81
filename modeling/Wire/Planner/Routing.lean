import Wire.Engine.OutputRouter
import Wire.Planner.Plan

/-!
# Keyed routing

A task behind a hash edge sends a record to one of its streams, which it finds from the number of
key groups and the number of its streams; the task at the other end owns the range of key groups
that the planner wrote into its descriptor.  The streams are dialled in the order of the
`Downstream` list, so stream `i` leads to the task that entry `i` names.

`keyed_routing` says that the two agree.  It takes three facts from the plan: a hash edge joins two
chains, its source has no other boundary edge, and the `Downstream` list of a task at its source
therefore names all the subtasks of the target in order.
-/

namespace Wire.Planner

open List

open Wire.Engine (Event)
open Wire.Engine.OutputRouter (Config)
open Wire.KeyGroup (keyGroup)

variable {jobID : String} {g : JobGraph} {defaultParallelism : ℤ} {tasks : List TaskDescriptor}

/-- The task owns the key group. -/
def TaskDescriptor.Owns (t : TaskDescriptor) (group : ℕ) : Prop :=
  t.keyGroup.start ≤ group ∧ (group : ℤ) ≤ t.keyGroup.stop

/-- A subtask owns what its range contains. -/
theorem subtask_owns_iff {count : ℕ} {ch : PhysicalChain} {i group : ℕ} {t : TaskDescriptor}
    (hbare : t.bare = subtask jobID count ch i) :
    t.Owns group ↔ KeyGroup.boundary count ch.parallelism i ≤ group ∧
      group < KeyGroup.boundary count ch.parallelism (i + 1) := by
  have hgroup : t.keyGroup = ⟨(KeyGroup.boundary count ch.parallelism i : ℕ),
      (KeyGroup.boundary count ch.parallelism (i + 1) : ℕ) - 1⟩ :=
    congrArg TaskDescriptor.keyGroup hbare
  rw [TaskDescriptor.Owns, hgroup]
  dsimp only
  omega

/-- A hash edge joins two chains. -/
theorem hash_leaves {chains : Chains} (h : planPhysicalChains g defaultParallelism = .ok chains)
    {e : EdgeDescriptor} (he : e ∈ g.edges) (hhash : e.normalized.shuffle = .hash) :
    chains.chainOf e.source ≠ chains.chainOf e.target := by
  intro heq
  obtain ⟨hinv, -, hknown⟩ := planPhysicalChains_inv h
  obtain ⟨ch, hch, hsource⟩ := hinv.exists_chain (hknown e he).1
  obtain ⟨dh, hdh, htarget⟩ := hinv.exists_chain (hknown e he).2
  rw [← heq, hch] at hdh
  cases hdh
  have hforward := forward_of_internal h (mem_of_getElem? hch) he hsource htarget
  rw [hhash] at hforward
  cases hforward

/-- **Routing by key agrees with ownership.**  For every graph that the planner accepts, every hash
edge, every task at its source and every record, whatever the hash function: the router accepts its
key groups, and the stream that it chooses leads to the task at the target of the edge that owns the
key group, which is the only one there. -/
theorem keyed_routing (h : buildPhysicalTasks jobID g defaultParallelism = .ok tasks)
    (e : EdgeDescriptor) (he : e ∈ g.edges) (hhash : e.normalized.shuffle = .hash)
    (s : TaskDescriptor) (hs : s ∈ tasks) (hsource : s.Runs e.source) : s.outputKeyGroups ≠ 0 ∧
    KeyGroup.validate s.outputKeyGroups s.downstream.length = .ok () ∧
    ∀ (cfg : Config) (next : ℕ) (record : Event), cfg.streams = s.downstream.length →
      cfg.keyGroups = s.outputKeyGroups →
      ∃ entry t, s.downstream[cfg.target next record]? = some entry ∧ t ∈ tasks ∧
        entry.name = t.name ∧ t.Runs e.target ∧
        t.Owns (keyGroup cfg.hash record.key cfg.keyGroups) ∧
        ∀ t' ∈ tasks, t'.Runs e.target →
          t'.Owns (keyGroup cfg.hash record.key cfg.keyGroups) → t' = t := by
  obtain ⟨count, chains, placed, hchains, hplan⟩ := plan_of_build h
  have hne := hash_leaves hchains he hhash
  obtain ⟨ch, hc, hops, hi, hbare⟩ := hplan.chain_of_task hs hsource
  obtain ⟨dh, hd, hdin⟩ := hplan.chained.exists_chain (hplan.known e he).2
  have hmem := mem_of_getElem? hd
  have haccepted := hplan.layout.accepted dh hmem
  have hvalid := KeyGroup.valid_of_validate haccepted
  -- what the descriptor of the sending task says
  have hnames : s.downstream.map DownstreamChannelInfo.name =
      (range dh.parallelism).map fun ti => (subtask jobID count dh ti).name := by
    rw [hplan.downstream he hc hd rfl rfl hne hs hbare hi, filter_eq_self.mpr]
    intro ti _
    rw [hhash]
    rfl
  have hlen : s.downstream.length = dh.parallelism := by
    have := congrArg length hnames
    rwa [length_map, length_map, length_range] at this
  have hcount : s.outputKeyGroups = count := by
    obtain ⟨base, hidx, htasks⟩ := hplan.exists_task hc
    obtain ⟨-, s', hs', hbare'⟩ := htasks _ hi
    have hsame : s = s' := hplan.eq_of_name hs (mem_of_getElem? hs') (by
      rw [TaskDescriptor.name_of_bare hbare, TaskDescriptor.name_of_bare hbare'])
    obtain ⟨b, rfl, hjoined⟩ := hplan.joined
    refine hjoined.routed e he ⟨rfl, Ne.symm hne⟩ hhash (base + s.subtaskIndex) ?_ s (hsame ▸ hs')
    rw [hidx, Option.getD_some, mem_range']
    exact ⟨s.subtaskIndex, hi, by rw [Nat.one_mul]⟩
  rw [hcount, hlen]
  have hpos : count ≠ 0 := (hvalid.parallel.trans_le hvalid.enough).ne'
  refine ⟨hpos, haccepted, ?_⟩
  intro cfg next record hstreams hgroups
  have hgroup := hvalid.keyGroup_lt cfg.hash record.key
  obtain ⟨hlt, -, -⟩ := hvalid.assignedTask_spec hgroup
  set group := keyGroup cfg.hash record.key count with hgroup_def
  set owner := KeyGroup.assignedTask group count dh.parallelism with howner
  have htarget : cfg.target next record = owner := by
    rw [Config.target, hgroups, if_pos hpos, hstreams]
  have hentry : (s.downstream.map DownstreamChannelInfo.name)[owner]? =
      some (subtask jobID count dh owner).name := by
    rw [hnames, getElem?_map, getElem?_range hlt]
    rfl
  rw [getElem?_map] at hentry
  obtain ⟨entry, hentry, hname⟩ := Option.map_eq_some_iff.mp hentry
  obtain ⟨base, -, htasks⟩ := hplan.exists_task hd
  obtain ⟨-, t, ht, htbare⟩ := htasks owner hlt
  have htops : t.operatorChain = dh.operators := congrArg TaskDescriptor.operatorChain htbare
  refine ⟨entry, t, htarget ▸ hentry, mem_of_getElem? ht, ?_, ?_, ?_, ?_⟩
  · rw [hname, TaskDescriptor.name_of_bare htbare]
  · rw [TaskDescriptor.Runs, htops]
    exact hdin
  · rw [hgroups, subtask_owns_iff htbare]
    exact (hvalid.assignedTask_eq_iff hgroup).mp howner.symm
  · intro t' ht' hruns howns
    obtain ⟨dh', hd', -, hi', hbare'⟩ := hplan.chain_of_task ht' hruns
    rw [hd] at hd'
    cases hd'
    rw [hgroups, subtask_owns_iff hbare'] at howns
    have hindex : owner = t'.subtaskIndex := (hvalid.assignedTask_eq_iff hgroup).mpr howns
    refine hplan.eq_of_name ht' (mem_of_getElem? ht) ?_
    rw [TaskDescriptor.name_of_bare hbare', TaskDescriptor.name_of_bare htbare, hindex]

/-- A mapper with two subtasks, sent by key to three. -/
def keyedGraph : JobGraph where
  operators := [⟨"s", .source, 0, none, 0⟩, ⟨"m", .map, 0, none, 0⟩, ⟨"k", .sink, 3, none, 0⟩]
  edges := [⟨"s", "m", .forward, ""⟩, ⟨"m", "k", .hash, ""⟩]

theorem keyed_routing_sample :
    ∃ tasks s, buildPhysicalTasks "job" keyedGraph 2 = .ok tasks ∧ s ∈ tasks ∧ s.Runs "m" ∧
      KeyGroup.validate s.outputKeyGroups s.downstream.length = .ok () ∧
      ∀ (cfg : Config) (next : ℕ) (record : Event), cfg.streams = s.downstream.length →
        cfg.keyGroups = s.outputKeyGroups →
        ∃ entry t, s.downstream[cfg.target next record]? = some entry ∧ t ∈ tasks ∧
          entry.name = t.name ∧ t.Owns (keyGroup cfg.hash record.key cfg.keyGroups) := by
  obtain ⟨tasks, htasks, s, hs, hruns⟩ := Guard.exists_ok
    (m := buildPhysicalTasks "job" keyedGraph 2)
    (p := fun ts => ∃ s ∈ ts, "m" ∈ s.operatorChain.map OperatorDescriptor.operatorID) (by decide)
  obtain ⟨-, haccepted, hroute⟩ :=
    keyed_routing htasks ⟨"m", "k", .hash, ""⟩ (by decide) (by decide) s hs hruns
  refine ⟨tasks, s, htasks, hs, hruns, haccepted, fun cfg next record hstreams hgroups => ?_⟩
  obtain ⟨entry, t, hentry, ht, hname, -, howns, -⟩ := hroute cfg next record hstreams hgroups
  exact ⟨entry, t, hentry, ht, hname, howns⟩

end Wire.Planner
