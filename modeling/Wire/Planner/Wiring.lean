import Wire.Planner.PhysicalTasks

/-!
# How the tasks are joined

What the pass over the edges leaves in the lists of the tasks, as an induction over the links that
have been added, and then over the edges.  A chain is the source of one boundary edge at most, so
the `Downstream` lists of its tasks hold the links of that edge and nothing else
(`Joined.downstream`).
-/

namespace Wire.Planner

open Guard List

/-! ## Links -/

section Links

/-- The pairs are pairs of subtasks of two chains. -/
theorem zipIdx_range' (base p : ℕ) :
    (range' base p).zipIdx = (range p).map fun i => (base + i, i) := by
  refine ext_getElem (by simp) fun i h₁ h₂ => ?_
  simp

variable {i p a b q : ℕ} {forward : Bool}

theorem flatMap_range_single {α : Type} (f : ℕ → List α) (hi : i < p) :
    ((range p).flatMap fun j => if j = i then f j else []) = f i := by
  induction p with
  | zero => exact absurd hi (Nat.not_lt_zero i)
  | succ p ih =>
    rw [range_succ, flatMap_append, flatMap_singleton]
    rcases Nat.lt_succ_iff_lt_or_eq.mp hi with hlt | heq
    · rw [ih hlt, if_neg hlt.ne', append_nil]
    · have hnone : ((range p).flatMap fun j => if j = i then f j else []) = [] := by
        refine flatMap_eq_nil_iff.mpr fun j hj => if_neg ?_
        have := mem_range.mp hj
        omega
      rw [hnone, if_pos heq.symm, nil_append, heq]

theorem links_range' (forward : Bool) (a b p q : ℕ) : links forward (range' a p) (range' b q) =
    (range p).flatMap fun si =>
      ((range q).filter fun ti => !(forward && si != ti)).map fun ti =>
        ⟨a + si, si, b + ti, ti⟩ := by
  rw [links, zipIdx_range', zipIdx_range', flatMap_map]
  refine flatMap_congr fun si _ => ?_
  dsimp only
  rw [filter_map, map_map]
  rfl

theorem mem_links {l : Link} :
    l ∈ links forward (range' a p) (range' b q) ↔
      l.si < p ∧ l.ti < q ∧ l.src = a + l.si ∧ l.dst = b + l.ti ∧ (forward → l.si = l.ti) := by
  obtain ⟨src, si, dst, ti⟩ := l
  rw [links_range', mem_flatMap]
  constructor
  · rintro ⟨i, hi, hl⟩
    obtain ⟨j, hj, heq⟩ := mem_map.mp hl
    cases heq
    obtain ⟨hq, hforward⟩ := mem_filter.mp hj
    refine ⟨mem_range.mp hi, mem_range.mp hq, rfl, rfl, ?_⟩
    rintro rfl
    simpa using hforward
  · rintro ⟨hp, hq, hsrc, hdst, hforward⟩
    dsimp only at hp hq hsrc hdst hforward
    subst hsrc hdst
    refine ⟨si, mem_range.mpr hp, mem_map.mpr ⟨ti, mem_filter.mpr ⟨mem_range.mpr hq, ?_⟩, rfl⟩⟩
    cases forward with
    | false => rfl
    | true => simpa using hforward rfl

/-- The links of one subtask go through the subtasks of the target in order. -/
theorem links_filter (hi : i < p) :
    ((links forward (range' a p) (range' b q)).filter fun l => l.src = a + i) =
      ((range q).filter fun ti => !(forward && i != ti)).map fun ti => ⟨a + i, i, b + ti, ti⟩ := by
  rw [links_range', filter_flatMap]
  have heach : ∀ si, ((((range q).filter fun ti => !(forward && si != ti)).map fun ti =>
        (⟨a + si, si, b + ti, ti⟩ : Link)).filter fun l => l.src = a + i) =
      if si = i then ((range q).filter fun ti => !(forward && si != ti)).map fun ti =>
        ⟨a + si, si, b + ti, ti⟩ else [] := by
    intro si
    rw [filter_map]
    by_cases hsi : si = i
    · subst hsi
      rw [if_pos rfl]
      congr 1
      exact filter_eq_self.mpr fun ti _ => decide_eq_true rfl
    · rw [if_neg hsi, map_eq_nil_iff, filter_eq_nil_iff]
      intro ti _ h
      have := of_decide_eq_true h
      dsimp only at this
      omega
  rw [flatMap_congr fun si _ => heach si]
  exact flatMap_range_single _ hi

end Links

/-! ## The lists after some links -/

/-- How a list names the task at the other end. -/
def TaskDescriptor.name (t : TaskDescriptor) : String × String × ℕ :=
  (t.taskID, t.operatorID, t.subtaskIndex)

def DownstreamChannelInfo.name (e : DownstreamChannelInfo) : String × String × ℕ :=
  (e.taskID, e.operatorID, e.subtaskIndex)

def UpstreamChannelInfo.name (u : UpstreamChannelInfo) : String × String × ℕ :=
  (u.taskID, u.operatorID, u.subtaskIndex)

/-- A task without what the pass over the edges adds. -/
def TaskDescriptor.bare (t : TaskDescriptor) : TaskDescriptor :=
  { t with outputKeyGroups := 0, upstream := [], downstream := [] }

theorem TaskDescriptor.name_of_bare {t t' : TaskDescriptor} (h : t.bare = t') :
    t.name = t'.name := by
  subst h
  rfl

/-- The link is one between two tasks that are there. -/
structure Link.Between (placed : List TaskDescriptor) (l : Link) (s t : TaskDescriptor) : Prop where
  src : placed[l.src]? = some s
  dst : placed[l.dst]? = some t
  si : s.subtaskIndex = l.si
  ti : t.subtaskIndex = l.ti

/-- The lists of the tasks after some links have been added. -/
structure Wired (placed : List TaskDescriptor) (added : List Link) (tasks : List TaskDescriptor) :
    Prop where
  same : ∀ i : ℕ, tasks[i]?.map TaskDescriptor.bare = placed[i]?
  targets : ∀ (i : ℕ) t, tasks[i]? = some t →
    t.downstream.map DownstreamChannelInfo.name =
      (added.filter fun l => l.src = i).map fun l => (placed[l.dst]?.getD default).name
  position : ∀ (j : ℕ) t, tasks[j]? = some t →
    ∀ (k : ℕ) u, t.upstream[k]? = some u → u.partitionIndex = k
  down : ∀ (i : ℕ) s, tasks[i]? = some s → ∀ e ∈ s.downstream,
    ∃ (j : ℕ) (t : TaskDescriptor) (u : UpstreamChannelInfo), tasks[j]? = some t ∧
      e.name = t.name ∧ t.upstream[e.partitionIndex]? = some u ∧ u.name = s.name
  up : ∀ (j : ℕ) t, tasks[j]? = some t → ∀ u ∈ t.upstream,
    ∃ (i : ℕ) (s : TaskDescriptor) (e : DownstreamChannelInfo), tasks[i]? = some s ∧
      u.name = s.name ∧ e ∈ s.downstream ∧ e.name = t.name ∧ e.partitionIndex = u.partitionIndex

section Wired

variable {placed tasks tasks' : List TaskDescriptor} {added : List Link} {l : Link}

theorem Wired.exists_task (h : Wired placed added tasks) {i : ℕ} {t₀ : TaskDescriptor}
    (hi : placed[i]? = some t₀) : ∃ t, tasks[i]? = some t ∧ t.bare = t₀ := by
  have hsame := h.same i
  rw [hi] at hsame
  obtain ⟨t, ht, hbare⟩ := Option.map_eq_some_iff.mp hsame
  exact ⟨t, ht, hbare⟩

/-- A task with the entries that a link adds to the task at this position. -/
def TaskDescriptor.extend (l : Link) (down : DownstreamChannelInfo) (up : UpstreamChannelInfo)
    (i : ℕ) (t : TaskDescriptor) : TaskDescriptor :=
  { t with
    downstream := t.downstream ++ if l.src = i then [down] else []
    upstream := t.upstream ++ if l.dst = i then [up] else [] }

theorem getElem?_modify_modify (down : DownstreamChannelInfo) (up : UpstreamChannelInfo) (i : ℕ) :
    ((tasks.modify l.src (.addDownstream down)).modify l.dst (.addUpstream up))[i]? =
      tasks[i]?.map (.extend l down up i) := by
  cases ht : tasks[i]? with
  | none =>
    rw [Option.map_none, getElem?_eq_none_iff, length_modify, length_modify]
    exact getElem?_eq_none_iff.mp ht
  | some t =>
    rw [getElem?_modify, getElem?_modify, ht]
    by_cases hsrc : l.src = i <;> by_cases hdst : l.dst = i <;>
      simp [TaskDescriptor.extend, TaskDescriptor.addDownstream, TaskDescriptor.addUpstream, hsrc,
        hdst]

/-- The entries that a link adds, and the task they are found with. -/
theorem link_eq_ok (hlink : link tasks l = .ok tasks') {s t : TaskDescriptor}
    (hs : tasks[l.src]? = some s) (ht : tasks[l.dst]? = some t) :
    let down : DownstreamChannelInfo := ⟨t.taskID, t.operatorID, l.ti, t.upstream.length⟩
    let up : UpstreamChannelInfo :=
      ⟨sourceIdleTimeout s, s.taskID, s.operatorID, l.si, t.upstream.length⟩
    ∀ i : ℕ, tasks'[i]? = tasks[i]?.map (.extend l down up i) := by
  simp only [link, bind_eq_ok, require_eq_ok, pure_eq_ok, hs, ht, Option.getD_some] at hlink
  obtain ⟨-, hlimit, rfl⟩ := hlink
  have hpartition : KeyGroup.uint16 t.upstream.length = t.upstream.length :=
    Nat.mod_eq_of_lt hlimit
  rw [hpartition]
  exact getElem?_modify_modify _ _

section

variable (h : Wired placed added tasks)
include h

theorem Wired.link {s₀ t₀ : TaskDescriptor}
    (hl : l.Between placed s₀ t₀) (hlink : link tasks l = .ok tasks') :
    Wired placed (added ++ [l]) tasks' := by
  obtain ⟨s, hs, hsbare⟩ := h.exists_task hl.src
  obtain ⟨t, ht, htbare⟩ := h.exists_task hl.dst
  have hnext := link_eq_ok hlink hs ht
  extract_lets down up at hnext
  have hti : l.ti = t.subtaskIndex := by
    rw [← hl.ti, ← htbare]
    rfl
  have hsi : l.si = s.subtaskIndex := by
    rw [← hl.si, ← hsbare]
    rfl
  have hdown : down.name = t.name := congrArg (fun i => (t.taskID, t.operatorID, i)) hti
  have hup : up.name = s.name := congrArg (fun i => (s.taskID, s.operatorID, i)) hsi
  have hsome : ∀ {i : ℕ} {x : TaskDescriptor}, tasks[i]? = some x →
      tasks'[i]? = some (x.extend l down up i) := by
    intro i x hx
    rw [hnext i, hx]
    rfl
  have hcases : ∀ {i : ℕ} {x' : TaskDescriptor}, tasks'[i]? = some x' →
      ∃ x, tasks[i]? = some x ∧ x' = x.extend l down up i := by
    intro i x' hx'
    rw [hnext i] at hx'
    obtain ⟨x, hx, rfl⟩ := Option.map_eq_some_iff.mp hx'
    exact ⟨x, hx, rfl⟩
  have hlast : (t.extend l down up l.dst).upstream[down.partitionIndex]? = some up := by
    change (t.upstream ++ if l.dst = l.dst then [up] else [])[t.upstream.length]? = some up
    rw [if_pos rfl, getElem?_concat_length]
  constructor
  · intro i
    rw [← h.same i, hnext i, Option.map_map]
    rfl
  · intro i x' hx'
    obtain ⟨x, hx, rfl⟩ := hcases hx'
    rw [filter_append, map_append, ← h.targets i x hx, TaskDescriptor.extend, map_append]
    by_cases hsrc : l.src = i
    · have hfilter : ([l].filter fun l => l.src = i) = [l] := by simp [hsrc]
      rw [if_pos hsrc, hfilter, map_singleton, map_singleton, hl.dst, Option.getD_some,
        hdown, TaskDescriptor.name_of_bare htbare]
    · have hfilter : ([l].filter fun l => l.src = i) = [] := by simp [hsrc]
      rw [if_neg hsrc, hfilter, map_nil, map_nil]
  · intro j x' hx' k u hu
    obtain ⟨x, hx, rfl⟩ := hcases hx'
    rw [TaskDescriptor.extend] at hu
    by_cases hdst : l.dst = j
    · rw [if_pos hdst, getElem?_append] at hu
      split at hu
      · exact h.position j x hx k u hu
      · next hk =>
        obtain ⟨hzero, rfl⟩ : k - x.upstream.length = 0 ∧ up = u := by
          cases hd : k - x.upstream.length with
          | zero => rw [hd] at hu; exact ⟨rfl, Option.some.inj hu⟩
          | succ n => rw [hd] at hu; cases hu
        subst hdst
        rw [ht] at hx
        cases hx
        change t.upstream.length = k
        omega
    · rw [if_neg hdst, append_nil] at hu
      exact h.position j x hx k u hu
  · intro i x' hx' e he
    obtain ⟨x, hx, rfl⟩ := hcases hx'
    rcases mem_append.mp he with hold | hnew
    · obtain ⟨j, y, u, hy, hname, hu, huname⟩ := h.down i x hx e hold
      refine ⟨j, _, u, hsome hy, hname, ?_, huname⟩
      exact List.getElem?_append_left (List.getElem?_eq_some_iff.mp hu).1 ▸ hu
    · by_cases hsrc : l.src = i
      · rw [if_pos hsrc, mem_singleton] at hnew
        subst hnew
        rw [← hsrc, hs] at hx
        cases hx
        exact ⟨l.dst, _, up, hsome ht, hdown, hlast, hup⟩
      · rw [if_neg hsrc] at hnew
        exact absurd hnew not_mem_nil
  · intro j y' hy' u hu
    obtain ⟨y, hy, rfl⟩ := hcases hy'
    rcases mem_append.mp hu with hold | hnew
    · obtain ⟨i, x, e, hx, huname, he, hname, hindex⟩ := h.up j y hy u hold
      exact ⟨i, _, e, hsome hx, huname, mem_append_left _ he, hname, hindex⟩
    · by_cases hdst : l.dst = j
      · rw [if_pos hdst, mem_singleton] at hnew
        subst hnew
        rw [← hdst, ht] at hy
        cases hy
        refine ⟨l.src, _, down, hsome hs, hup, mem_append_right _ ?_, hdown, rfl⟩
        rw [if_pos rfl]
        exact mem_singleton_self down
      · rw [if_neg hdst] at hnew
        exact absurd hnew not_mem_nil

theorem Wired.links {l : List Link}
    (hl : ∀ x ∈ l, ∃ s t, x.Between placed s t)
    (hlinks : l.foldlM Planner.link tasks = .ok tasks') :
    Wired placed (added ++ l) tasks' := by
  induction l generalizing added tasks with
  | nil =>
    rw [foldlM_nil, pure_eq_ok] at hlinks
    rw [append_nil, ← hlinks]
    exact h
  | cons x l ih =>
    rw [foldlM_cons, bind_eq_ok] at hlinks
    obtain ⟨tasks₁, hx, hrest⟩ := hlinks
    obtain ⟨⟨s, t, hbetween⟩, hl⟩ := forall_mem_cons.mp hl
    have := ih (h.link hbetween hx) hl hrest
    rwa [append_assoc, singleton_append] at this

/-- The lists do not depend on the output key groups. -/
theorem Wired.routeByKey (count src : ℕ) :
    Wired placed added (tasks.modify src (.routeByKey count)) := by
  have hcases : ∀ {i : ℕ} {x' : TaskDescriptor},
      (tasks.modify src (.routeByKey count))[i]? = some x' → ∃ x, tasks[i]? = some x ∧
        x'.bare = x.bare ∧ x'.downstream = x.downstream ∧ x'.upstream = x.upstream := by
    intro i x' hx'
    rw [getElem?_modify] at hx'
    obtain ⟨x, hx, rfl⟩ := Option.map_eq_some_iff.mp hx'
    refine ⟨x, hx, ?_⟩
    split <;> exact ⟨rfl, rfl, rfl⟩
  have hsome : ∀ {i : ℕ} {x : TaskDescriptor}, tasks[i]? = some x →
      ∃ x', (tasks.modify src (.routeByKey count))[i]? = some x' ∧
        x'.bare = x.bare ∧ x'.downstream = x.downstream ∧ x'.upstream = x.upstream := by
    intro i x hx
    rw [getElem?_modify, hx]
    refine ⟨_, rfl, ?_⟩
    split <;> exact ⟨rfl, rfl, rfl⟩
  constructor
  · intro i
    rw [← h.same i, getElem?_modify, Option.map_eq_map, Option.map_map]
    congr 1
    funext x
    split <;> rfl
  · intro i x' hx'
    obtain ⟨x, hx, -, hdown, -⟩ := hcases hx'
    rw [hdown]
    exact h.targets i x hx
  · intro j x' hx'
    obtain ⟨x, hx, -, -, hup⟩ := hcases hx'
    rw [hup]
    exact h.position j x hx
  · intro i x' hx' e he
    obtain ⟨x, hx, hbare, hdown, -⟩ := hcases hx'
    obtain ⟨j, y, u, hy, hname, hu, huname⟩ := h.down i x hx e (hdown ▸ he)
    obtain ⟨y', hy', hybare, -, hyup⟩ := hsome hy
    exact ⟨j, y', u, hy', hname.trans (TaskDescriptor.name_of_bare hybare).symm, hyup ▸ hu,
      huname.trans (TaskDescriptor.name_of_bare hbare).symm⟩
  · intro j y' hy' u hu
    obtain ⟨y, hy, hbare, -, hup⟩ := hcases hy'
    obtain ⟨i, x, e, hx, huname, he, hname, hindex⟩ := h.up j y hy u (hup ▸ hu)
    obtain ⟨x', hx', hxbare, hxdown, -⟩ := hsome hx
    exact ⟨i, x', e, hx', huname.trans (TaskDescriptor.name_of_bare hxbare).symm, hxdown ▸ he,
      hname.trans (TaskDescriptor.name_of_bare hbare).symm, hindex⟩

end

end Wired

end Wire.Planner
