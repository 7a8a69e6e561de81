import Wire.Planner.KeyGroup
import Wire.Worker.State

/-!
# Chains

The planner first sorts the operators of a job graph, then fuses paths of forward edges into chains:
an operator joins the chain of its only predecessor when that one has no other successor and runs at
the same parallelism.  Here is the model of `topoSortOperators` and `planPhysicalChains`, and what
the chains are.

Kahn's algorithm runs until its queue is empty.  The model takes as many rounds as there are
operators, and `kahn_queue` says that the queue is empty then: an operator is queued when the number
of its unvisited predecessors drops to zero, which happens once.

A chain is extended at its end only.  The predecessor of the new operator is the last of its chain,
since otherwise its only successor, the next in the chain, would be the operator that is about to be
placed.
-/

namespace Wire.Planner

open Guard Function List
open Wire.Worker (OperatorType)

/-! ## The job graph -/

/-- The strategies that `WatermarkConfig.Validate` knows, and any other string. -/
inductive WatermarkStrategy where
  | boundedOOO | monotonic | ingestionTime
  | other (name : String)
deriving DecidableEq

structure WatermarkConfig where
  strategy : WatermarkStrategy
  maxOOO : Option ℤ := none
  emitInterval : ℤ := 0
  idleTimeout : ℤ := 0
deriving DecidableEq

/-- `rpc.OperatorDescriptor`; `rest` stands for the fields that the planner only copies. -/
structure OperatorDescriptor where
  operatorID : String
  type : OperatorType := .unknown
  parallelism : ℤ := 0
  watermark : Option WatermarkConfig := none
  rest : ℕ := 0
deriving DecidableEq

/-- The zero value. -/
instance : Inhabited OperatorDescriptor := ⟨{ operatorID := "" }⟩

/-- `rpc.ShuffleStrategy`; the strategies without a name are `other`. -/
inductive ShuffleStrategy where
  | unknown | forward | hash | broadcast | rebalance
  | other (n : ℕ)
deriving DecidableEq

structure EdgeDescriptor where
  source : String
  target : String
  shuffle : ShuffleStrategy
  keySelector : String := ""
deriving DecidableEq

structure JobGraph where
  numKeyGroups : ℤ := 0
  operators : List OperatorDescriptor
  edges : List EdgeDescriptor
deriving DecidableEq

inductive Error where
  | invalidWatermark
  | keyGroups (e : KeyGroup.Error)
  | unknownSource (operatorID : String)
  | unknownTarget (operatorID : String)
  | cycle
  | duplicateOperator (operatorID : String)
  | invalidParallelism (operatorID : String)
  | multipleOutputEdges
  | unsupportedShuffle (s : ShuffleStrategy)
  | edgeKeySelector
  | unequalParallelism (source target : String)
  | partitionLimit (taskID : String)
deriving DecidableEq

/-- An edge without a strategy is a forward edge. -/
def EdgeDescriptor.normalized (e : EdgeDescriptor) : EdgeDescriptor :=
  if e.shuffle = .unknown then { e with shuffle := .forward } else e

@[simp] theorem EdgeDescriptor.normalized_source (e : EdgeDescriptor) :
    e.normalized.source = e.source := by
  rw [normalized]
  split <;> rfl

@[simp] theorem EdgeDescriptor.normalized_target (e : EdgeDescriptor) :
    e.normalized.target = e.target := by
  rw [normalized]
  split <;> rfl

namespace JobGraph

/-- The operator that `byID` holds: a later one overwrites an earlier one. -/
def byID (g : JobGraph) (id : String) : Option OperatorDescriptor :=
  g.operators.reverse.find? fun op => op.operatorID = id

/-- `adj`. -/
def adj (g : JobGraph) (id : String) : List String :=
  (g.edges.filter fun e => e.source = id).map EdgeDescriptor.target

def incoming (g : JobGraph) (id : String) : List EdgeDescriptor :=
  (g.edges.map EdgeDescriptor.normalized).filter fun e => e.target = id

def outgoing (g : JobGraph) (id : String) : List EdgeDescriptor :=
  (g.edges.map EdgeDescriptor.normalized).filter fun e => e.source = id

def ids (g : JobGraph) : List String := g.operators.map OperatorDescriptor.operatorID

/-! ## The order -/

/-- The variables of Kahn's algorithm. -/
structure Kahn where
  inDegree : String → ℤ
  queue : List String
  result : List OperatorDescriptor

/-- The initial queue, without duplicates. -/
def ready (g : JobGraph) : List String :=
  (g.ids.filter fun id => (g.edges.countP fun e => e.target = id) = 0).foldl
    (fun queue id => if id ∈ queue then queue else queue ++ [id]) []

def initialKahn (g : JobGraph) : Kahn where
  inDegree id := g.edges.countP fun e => e.target = id
  queue := g.ready
  result := []

/-- A predecessor of `next` has been visited. -/
def Kahn.release (s : Kahn) (next : String) : Kahn :=
  let degree := s.inDegree next - 1
  { s with
    inDegree := update s.inDegree next degree
    queue := if degree = 0 then s.queue ++ [next] else s.queue }

def visit (g : JobGraph) (s : Kahn) (id : String) (rest : List String) : Kahn :=
  (g.adj id).foldl Kahn.release
    { s with queue := rest, result := s.result ++ [(g.byID id).getD default] }

/-- The loop, for a number of rounds. -/
def kahn (g : JobGraph) : ℕ → Kahn → Kahn
  | 0, s => s
  | n + 1, s =>
    match s.queue with
    | [] => s
    | id :: rest => kahn g n (g.visit s id rest)

/-- `topoSortOperators`. -/
def topoSortOperators (g : JobGraph) : Except Error (List OperatorDescriptor) := do
  forM g.edges fun e => do
    require (g.byID e.source).isSome (.unknownSource e.source)
    require (g.byID e.target).isSome (.unknownTarget e.target)
  let s := g.kahn g.operators.length g.initialKahn
  require (s.result.length = g.operators.length) .cycle
  return s.result

end JobGraph

/-! ## Fusing -/

structure PhysicalChain where
  operators : List OperatorDescriptor
  parallelism : ℕ
deriving DecidableEq

structure Chains where
  chains : List PhysicalChain := []
  membership : String → Option ℕ := fun _ => none

/-- The parallelism an operator runs at. -/
def OperatorDescriptor.effective (op : OperatorDescriptor) (defaultParallelism : ℤ) : ℤ :=
  if op.parallelism = 0 then defaultParallelism else op.parallelism

/-- The chain that the operator joins. -/
def Chains.parent (s : Chains) (g : JobGraph) (op : OperatorDescriptor) (p : ℤ) : Option ℕ :=
  match g.incoming op.operatorID with
  | [edge] =>
    (s.membership edge.source).filter fun c =>
      edge.shuffle = .forward ∧ (g.outgoing edge.source).length = 1 ∧
        s.chains[c]?.any fun ch => ch.parallelism = p
  | _ => none

def PhysicalChain.append (op : OperatorDescriptor) (ch : PhysicalChain) : PhysicalChain :=
  { ch with operators := ch.operators ++ [op] }

/-- One round of the loop of `planPhysicalChains`. -/
def Chains.place (g : JobGraph) (defaultParallelism : ℤ) (s : Chains) (op : OperatorDescriptor) :
    Except Error Chains := do
  require (s.membership op.operatorID = none) (.duplicateOperator op.operatorID)
  let p := op.effective defaultParallelism
  require (1 ≤ p) (.invalidParallelism op.operatorID)
  return match s.parent g op p with
    | some c =>
      { chains := s.chains.modify c (.append op)
        membership := update s.membership op.operatorID (some c) }
    | none =>
      { chains := s.chains ++ [⟨[op], p.toNat⟩]
        membership := update s.membership op.operatorID (some s.chains.length) }

/-- `planPhysicalChains`. -/
def planPhysicalChains (g : JobGraph) (defaultParallelism : ℤ) : Except Error Chains := do
  let sorted ← g.topoSortOperators
  sorted.foldlM (Chains.place g defaultParallelism) {}

/-! ## Kahn's algorithm -/

variable {id : String} {op : OperatorDescriptor} {e : EdgeDescriptor} {chains : List PhysicalChain}
  {ch : PhysicalChain} {placed : List OperatorDescriptor} {s : Chains}

namespace JobGraph

variable {g : JobGraph} {s : Kahn}

theorem mem_of_byID (h : g.byID id = some op) : op ∈ g.operators ∧ op.operatorID = id := by
  have hmem := mem_of_find?_eq_some h
  have hid := find?_some h
  exact ⟨mem_reverse.mp hmem, of_decide_eq_true hid⟩

theorem byID_isSome (h : id ∈ g.ids) : (g.byID id).isSome := by
  obtain ⟨op, hop, rfl⟩ := mem_map.mp h
  rw [byID, find?_isSome]
  exact ⟨op, mem_reverse.mpr hop, decide_eq_true rfl⟩

theorem mem_ids_of_byID (h : (g.byID id).isSome) : id ∈ g.ids := by
  obtain ⟨op, hop⟩ := Option.isSome_iff_exists.mp h
  obtain ⟨hmem, rfl⟩ := mem_of_byID hop
  exact mem_map_of_mem hmem

/-- What the variables of Kahn's algorithm satisfy: nothing is queued twice, and what has been
queued has no unvisited predecessor. -/
structure Kahn.Inv (g : JobGraph) (s : Kahn) : Prop where
  nodup : (s.result.map OperatorDescriptor.operatorID ++ s.queue).Nodup
  degree : ∀ id ∈ s.result.map OperatorDescriptor.operatorID ++ s.queue, s.inDegree id ≤ 0
  known : ∀ id ∈ s.queue, id ∈ g.ids
  taken : ∀ op ∈ s.result, op ∈ g.operators

theorem Kahn.release_inDegree (s : Kahn) (next : String) :
    (s.release next).inDegree = update s.inDegree next (s.inDegree next - 1) := rfl

theorem Kahn.Inv.release {next : String} (h : s.Inv g) (hnext : next ∈ g.ids) :
    (s.release next).Inv g := by
  have hdegree : ∀ id ∈ s.result.map OperatorDescriptor.operatorID ++ s.queue,
      (s.release next).inDegree id ≤ 0 := by
    intro id hid
    have hle := h.degree id hid
    by_cases hsame : id = next
    · subst hsame
      rw [Kahn.release_inDegree, update_self]
      omega
    · rw [Kahn.release_inDegree, update_of_ne hsame]
      exact hle
  by_cases hzero : s.inDegree next - 1 = 0
  · have hqueue : (s.release next).queue = s.queue ++ [next] := if_pos hzero
    have hnew : next ∉ s.result.map OperatorDescriptor.operatorID ++ s.queue := by
      intro hmem
      have := h.degree next hmem
      omega
    constructor
    · rw [hqueue, ← append_assoc, nodup_append]
      exact ⟨h.nodup, nodup_singleton next, fun a ha b hb => by
        rintro rfl
        exact hnew (mem_singleton.mp hb ▸ ha)⟩
    · intro id hid
      rw [hqueue, ← append_assoc] at hid
      rcases mem_append.mp hid with hold | hlast
      · exact hdegree id hold
      · rw [mem_singleton.mp hlast, Kahn.release_inDegree, update_self]
        exact hzero.le
    · intro id hid
      rw [hqueue] at hid
      rcases mem_append.mp hid with hold | hlast
      · exact h.known id hold
      · rwa [mem_singleton.mp hlast]
    · exact h.taken
  · have hqueue : (s.release next).queue = s.queue := if_neg hzero
    exact ⟨hqueue ▸ h.nodup, hqueue ▸ hdegree, hqueue ▸ h.known, h.taken⟩

theorem Kahn.Inv.releases {l : List String} (h : s.Inv g) (hl : ∀ id ∈ l, id ∈ g.ids) :
    (l.foldl Kahn.release s).Inv g := by
  induction l generalizing s with
  | nil => exact h
  | cons next l ih =>
    obtain ⟨hnext, hl⟩ := forall_mem_cons.mp hl
    exact ih (h.release hnext) hl

variable {rest : List String} {sorted : List OperatorDescriptor}

theorem Kahn.Inv.visit (h : s.Inv g) (hq : s.queue = id :: rest)
    (hadj : ∀ id, ∀ next ∈ g.adj id, next ∈ g.ids) : (g.visit s id rest).Inv g := by
  obtain ⟨op, hop⟩ := Option.isSome_iff_exists.mp
    (byID_isSome (h.known id (hq ▸ mem_cons_self)))
  obtain ⟨hmem, hid⟩ := mem_of_byID hop
  refine .releases (s := { s with queue := rest, result := s.result ++ [_] }) ?_ (hadj id)
  have hlist : (s.result ++ [(g.byID id).getD default]).map OperatorDescriptor.operatorID ++ rest =
      s.result.map OperatorDescriptor.operatorID ++ s.queue := by
    rw [hop, Option.getD_some, map_append, append_assoc, hq, map_singleton, hid, singleton_append]
  constructor
  · exact hlist ▸ h.nodup
  · exact hlist ▸ h.degree
  · exact fun id' hid' => h.known id' (hq ▸ mem_cons_of_mem id hid')
  · intro op' hop'
    rcases mem_append.mp hop' with hold | hnew
    · exact h.taken op' hold
    · rw [mem_singleton.mp hnew, hop]
      exact hmem

/-- What a visit keeps, the loop keeps. -/
theorem kahn_invariant {P : Kahn → Prop}
    (hvisit : ∀ {s id rest}, P s → s.queue = id :: rest → P (g.visit s id rest)) (n : ℕ)
    (h : P s) : P (g.kahn n s) := by
  induction n generalizing s with
  | zero => exact h
  | succ n ih =>
    rw [kahn]
    split
    · exact h
    · next id rest hq => exact ih (hvisit h hq)

theorem Kahn.Inv.kahn (hadj : ∀ id, ∀ next ∈ g.adj id, next ∈ g.ids) (n : ℕ) (h : s.Inv g) :
    (g.kahn n s).Inv g :=
  kahn_invariant (fun h hq => h.visit hq hadj) n h

@[simp] theorem Kahn.releases_result (l : List String) :
    (l.foldl Kahn.release s).result = s.result := by
  induction l generalizing s with
  | nil => rfl
  | cons next l ih => exact ih

/-- A round visits one operator, unless the queue is empty. -/
theorem kahn_rounds (n : ℕ) :
    (g.kahn n s).queue = [] ∨ (g.kahn n s).result.length = s.result.length + n := by
  induction n generalizing s with
  | zero => exact .inr rfl
  | succ n ih =>
    rw [kahn]
    split
    · next hq => exact .inl hq
    · next id rest hq =>
      refine ih.imp_right fun hlen => ?_
      rw [hlen, visit, Kahn.releases_result, length_append, length_singleton]
      omega

theorem nodup_ready (g : JobGraph) : g.ready.Nodup := by
  refine foldlRecOn _ _ nodup_nil fun queue hqueue id _ => ?_
  split
  · exact hqueue
  · next hnew =>
    refine nodup_append.mpr ⟨hqueue, nodup_singleton id, fun a ha b hb => ?_⟩
    rintro rfl
    exact hnew (mem_singleton.mp hb ▸ ha)

theorem mem_ready : id ∈ g.ready ↔ id ∈ g.ids ∧ (g.edges.countP fun e => e.target = id) = 0 := by
  have hfold : ∀ l queue : List String,
      id ∈ l.foldl (fun queue id => if id ∈ queue then queue else queue ++ [id]) queue ↔
        id ∈ queue ∨ id ∈ l := by
    intro l
    induction l with
    | nil => simp
    | cons a l ih =>
      intro queue
      rw [foldl_cons, ih, mem_cons, ← or_assoc]
      refine or_congr_left ?_
      split
      · next hmem => exact ⟨.inl, fun h => h.elim (fun h => h) fun heq => heq ▸ hmem⟩
      · rw [mem_append, mem_singleton]
  rw [ready, hfold, mem_filter, decide_eq_true_eq]
  exact or_iff_right not_mem_nil

theorem inv_initialKahn (g : JobGraph) : g.initialKahn.Inv g where
  nodup := g.nodup_ready
  degree id hid := by
    have hzero := (mem_ready.mp hid).2
    change ((g.edges.countP fun e => e.target = id : ℕ) : ℤ) ≤ 0
    rw [hzero]
    rfl
  known id hid := (mem_ready.mp hid).1
  taken op hop := absurd hop not_mem_nil

/-- **As many rounds as there are operators are enough.** -/
theorem kahn_queue (hadj : ∀ id, ∀ next ∈ g.adj id, next ∈ g.ids) :
    (g.kahn g.operators.length g.initialKahn).queue = [] := by
  have hinv := g.inv_initialKahn.kahn hadj g.operators.length
  rcases g.kahn_rounds (s := g.initialKahn) g.operators.length with hempty | hlen
  · exact hempty
  set s := g.kahn g.operators.length g.initialKahn
  have hsub : s.result.map OperatorDescriptor.operatorID ++ s.queue ⊆ g.ids := by
    intro id hid
    rcases mem_append.mp hid with hdone | hqueue
    · obtain ⟨op, hop, rfl⟩ := mem_map.mp hdone
      exact mem_map_of_mem (hinv.taken op hop)
    · exact hinv.known id hqueue
  have hle := (hinv.nodup.subperm hsub).length_le
  rw [length_append, length_map, hlen, ids, length_map] at hle
  exact length_eq_zero_iff.mp (by
    omega)

/-! ### Order -/

/-- Every operator comes after its predecessors. -/
def Topological (g : JobGraph) (sorted : List OperatorDescriptor) : Prop :=
  ∀ before op after, sorted = before ++ op :: after → ∀ e ∈ g.edges, e.target = op.operatorID →
    e.source ∈ before.map OperatorDescriptor.operatorID

/-- What is counted is the edges from operators that have not been visited. -/
structure Kahn.Topo (g : JobGraph) (s : Kahn) : Prop where
  degree : ∀ id, s.inDegree id = g.edges.countP fun e =>
    e.target = id ∧ e.source ∉ s.result.map OperatorDescriptor.operatorID
  order : g.Topological s.result

theorem Kahn.releases_inDegree (l : List String) (id : String) :
    (l.foldl Kahn.release s).inDegree id = s.inDegree id - l.count id := by
  induction l generalizing s with
  | nil => simp
  | cons next l ih =>
    rw [foldl_cons, ih, Kahn.release_inDegree, count_cons]
    by_cases hid : id = next
    · subst hid
      rw [update_self, beq_self_eq_true, if_pos rfl]
      push_cast
      omega
    · rw [update_of_ne hid, if_neg (by simpa using Ne.symm hid), Nat.add_zero]

theorem count_adj (g : JobGraph) (id next : String) :
    (g.adj id).count next = g.edges.countP fun e => e.target = next ∧ e.source = id := by
  rw [adj, count, countP_map, countP_filter]
  refine countP_congr fun e _ => ?_
  simp

theorem Kahn.Topo.visit (h : s.Topo g) (hinv : s.Inv g)
    (hq : s.queue = id :: rest) : (g.visit s id rest).Topo g := by
  have hmem : id ∈ s.result.map OperatorDescriptor.operatorID ++ s.queue :=
    mem_append_right _ (hq ▸ mem_cons_self)
  obtain ⟨op, hop⟩ := Option.isSome_iff_exists.mp
    (byID_isSome (hinv.known id (hq ▸ mem_cons_self)))
  obtain ⟨-, hid⟩ := mem_of_byID hop
  have hnew : id ∉ s.result.map OperatorDescriptor.operatorID := by
    intro hdone
    have hnodup := hinv.nodup
    rw [hq] at hnodup
    exact (nodup_append.mp hnodup).2.2 id hdone id mem_cons_self rfl
  have hresult : (g.visit s id rest).result = s.result ++ [op] := by
    rw [JobGraph.visit, Kahn.releases_result, hop, Option.getD_some]
  constructor
  · intro next
    rw [hresult, JobGraph.visit, Kahn.releases_inDegree, h.degree next, count_adj]
    -- the edges from the visited operator are no longer counted
    have hsplit : (g.edges.countP fun e =>
          e.target = next ∧ e.source ∉ s.result.map OperatorDescriptor.operatorID) =
        (g.edges.countP fun e => e.target = next ∧
          e.source ∉ (s.result ++ [op]).map OperatorDescriptor.operatorID) +
        g.edges.countP fun e => e.target = next ∧ e.source = id := by
      induction g.edges with
      | nil => rfl
      | cons e edges ih =>
        rw [countP_cons, countP_cons, countP_cons, ih]
        by_cases htarget : e.target = next
        · by_cases hsource : e.source = id
          · have hout : e.source ∉ s.result.map OperatorDescriptor.operatorID := hsource ▸ hnew
            simp [htarget, hsource, hid, hnew]
            omega
          · simp [htarget, hsource, hid]
            omega
        · simp [htarget]
    omega
  · intro before op' after heq e he htarget
    rw [hresult] at heq
    rcases eq_nil_or_concat after with rfl | ⟨after', x, rfl⟩
    · obtain ⟨rfl, hx⟩ := append_inj' heq rfl
      cases hx
      have hzero := hinv.degree id hmem
      rw [h.degree id] at hzero
      have hcount : (g.edges.countP fun e =>
          e.target = id ∧ e.source ∉ s.result.map OperatorDescriptor.operatorID) = 0 := by omega
      have hnot := countP_eq_zero.mp hcount e he
      by_contra hsource
      exact hnot (decide_eq_true ⟨htarget.trans hid, hsource⟩)
    · rw [concat_eq_append, ← cons_append, ← append_assoc] at heq
      exact h.order before op' after' (append_inj' heq rfl).1 e he htarget

theorem Kahn.Topo.kahn (hadj : ∀ id, ∀ next ∈ g.adj id, next ∈ g.ids) (n : ℕ) (h : s.Topo g)
    (hinv : s.Inv g) : (g.kahn n s).Topo g :=
  (kahn_invariant (P := fun s => s.Topo g ∧ s.Inv g)
    (fun h hq => ⟨h.1.visit h.2 hq, h.2.visit hq hadj⟩) n ⟨h, hinv⟩).1

theorem topo_initialKahn (g : JobGraph) : g.initialKahn.Topo g where
  degree id := by
    simp [initialKahn]
  order before op after h := by
    exact absurd h.symm (by simp [initialKahn])

theorem mem_ids_of_mem_adj (g : JobGraph)
    (hknown : ∀ e ∈ g.edges, e.source ∈ g.ids ∧ e.target ∈ g.ids) (id : String) :
    ∀ next ∈ g.adj id, next ∈ g.ids := by
  intro next hnext
  obtain ⟨e, he, rfl⟩ := mem_map.mp hnext
  exact (hknown e (mem_of_mem_filter he)).2

/-- What the sort returns: all the operators, no identifier twice, in a topological order. -/
theorem topoSortOperators_eq_ok (h : g.topoSortOperators = .ok sorted) :
    sorted.Perm g.operators ∧ (sorted.map OperatorDescriptor.operatorID).Nodup ∧
      g.Topological sorted ∧ ∀ e ∈ g.edges, e.source ∈ g.ids ∧ e.target ∈ g.ids := by
  simp only [topoSortOperators, bind_eq_ok, require_eq_ok, pure_eq_ok] at h
  obtain ⟨_, hedges, -, hlen, rfl⟩ := h
  have hknown : ∀ e ∈ g.edges, e.source ∈ g.ids ∧ e.target ∈ g.ids := by
    intro e he
    have hchecked := forM_eq_ok hedges e he
    simp only [bind_eq_ok, require_eq_ok] at hchecked
    obtain ⟨-, hsource, htarget⟩ := hchecked
    exact ⟨mem_ids_of_byID hsource, mem_ids_of_byID htarget⟩
  have hadj := g.mem_ids_of_mem_adj hknown
  have hinv := g.inv_initialKahn.kahn hadj g.operators.length
  have hnodup := hinv.nodup.of_append_left
  have htopo := g.topo_initialKahn.kahn hadj g.operators.length g.inv_initialKahn
  refine ⟨?_, hnodup, htopo.order, hknown⟩
  exact ((hnodup.of_map _).subperm hinv.taken).perm_of_length_le hlen.ge

/-! ### Exactness -/

def Edge (g : JobGraph) (a b : String) : Prop := ∃ e ∈ g.edges, e.source = a ∧ e.target = b

def Acyclic (g : JobGraph) : Prop := ∀ id, ¬ Relation.TransGen g.Edge id id

/-- Whoever comes before an operator comes before it in the order. -/
theorem Topological.mem_of_path {before after : List OperatorDescriptor} {a b : String}
    (h : g.Topological (before ++ after)) (hpath : Relation.ReflTransGen g.Edge a b)
    (hb : b ∈ before.map OperatorDescriptor.operatorID) :
    a ∈ before.map OperatorDescriptor.operatorID := by
  induction hpath using Relation.ReflTransGen.head_induction_on with
  | refl => exact hb
  | head hedge _ ih =>
    obtain ⟨e, he, rfl, rfl⟩ := hedge
    obtain ⟨op, hop, hid⟩ := mem_map.mp ih
    obtain ⟨l, l', rfl⟩ := append_of_mem hop
    have hsource := h l op (l' ++ after) (by simp) e he hid.symm
    exact map_append ▸ mem_append_left _ hsource

theorem Topological.acyclic (h : g.Topological sorted)
    (hnodup : (sorted.map OperatorDescriptor.operatorID).Nodup)
    (hall : ∀ e ∈ g.edges, e.target ∈ sorted.map OperatorDescriptor.operatorID) : g.Acyclic := by
  intro id hcycle
  obtain ⟨last, hpath, e, he, rfl, rfl⟩ := Relation.TransGen.tail'_iff.mp hcycle
  obtain ⟨op, hop, hid⟩ := mem_map.mp (hall e he)
  obtain ⟨before, after, rfl⟩ := append_of_mem hop
  have hbefore := h.mem_of_path hpath (h before op after rfl e he hid.symm)
  rw [map_append, map_cons, hid] at hnodup
  exact (nodup_append.mp hnodup).2.2 _ hbefore _ mem_cons_self rfl

/-- Where the edges have no cycle, what holds of an operator once it holds of its predecessors holds
of every operator. -/
theorem Acyclic.induction (hacyclic : g.Acyclic) {P : String → Prop}
    (hstep : ∀ id ∈ g.ids, (∀ a ∈ g.ids, g.Edge a id → P a) → P id) : ∀ id ∈ g.ids, P id := by
  let before (a b : { id // id ∈ g.ids }) : Prop := Relation.TransGen g.Edge a b
  have : Std.Irrefl before := ⟨fun a => hacyclic a⟩
  have hwf : WellFounded before := Finite.wellFounded_of_trans_of_irrefl before
  intro id hid
  induction hx : (⟨id, hid⟩ : { id // id ∈ g.ids }) using hwf.induction generalizing id with
  | _ x ih =>
    subst hx
    exact hstep id hid fun a ha hedge => ih ⟨a, ha⟩ (.single hedge) a ha rfl

/-- An operator without unvisited predecessors has been queued. -/
def Kahn.Swept (g : JobGraph) (s : Kahn) : Prop :=
  ∀ id ∈ g.ids, s.inDegree id = 0 → id ∈ s.result.map OperatorDescriptor.operatorID ++ s.queue

theorem Kahn.Swept.release (h : s.Swept g) (next : String) : (s.release next).Swept g := by
  intro id hid hzero
  rw [Kahn.release_inDegree] at hzero
  by_cases hsame : id = next
  · subst hsame
    rw [update_self] at hzero
    have hqueue : (s.release id).queue = s.queue ++ [id] := if_pos hzero
    rw [hqueue, ← append_assoc]
    exact mem_append_right _ mem_cons_self
  · rw [update_of_ne hsame] at hzero
    rcases mem_append.mp (h id hid hzero) with hdone | hqueued
    · exact mem_append_left _ hdone
    · refine mem_append_right _ ?_
      rw [Kahn.release]
      split
      · exact mem_append_left _ hqueued
      · exact hqueued

theorem Kahn.Swept.visit (h : s.Swept g) (hq : s.queue = id :: rest)
    (hid : id ∈ g.ids) : (g.visit s id rest).Swept g := by
  obtain ⟨op, hop⟩ := Option.isSome_iff_exists.mp (byID_isSome hid)
  refine foldlRecOn (motive := Kahn.Swept g) _ _ ?_ fun s hs next _ => hs.release next
  intro id' hid' hzero
  have hold := h id' hid' hzero
  rw [hq] at hold
  rw [hop, Option.getD_some, map_append, append_assoc, map_singleton, (mem_of_byID hop).2]
  exact hold

theorem Kahn.Swept.kahn (hadj : ∀ id, ∀ next ∈ g.adj id, next ∈ g.ids) (n : ℕ) (h : s.Swept g)
    (hinv : s.Inv g) : (g.kahn n s).Swept g :=
  (kahn_invariant (P := fun s => s.Swept g ∧ s.Inv g) (fun h hq =>
    ⟨h.1.visit hq (h.2.known _ (hq ▸ mem_cons_self)), h.2.visit hq hadj⟩) n ⟨h, hinv⟩).1

/-- Nobody is left over where there is no cycle: who is left has a predecessor that is left. -/
theorem Acyclic.mem_result (hacyclic : g.Acyclic)
    (hknown : ∀ e ∈ g.edges, e.source ∈ g.ids ∧ e.target ∈ g.ids) (hswept : s.Swept g)
    (htopo : s.Topo g) (hqueue : s.queue = []) :
    ∀ id ∈ g.ids, id ∈ s.result.map OperatorDescriptor.operatorID := by
  refine hacyclic.induction fun id hid hpred => ?_
  have hzero : s.inDegree id = 0 := by
    rw [htopo.degree id, Int.natCast_eq_zero, countP_eq_zero]
    intro e he
    rw [decide_eq_true_eq]
    rintro ⟨htarget, hsource⟩
    exact hsource (hpred e.source (hknown e he).1 ⟨e, he, rfl, htarget⟩)
  have hmem := hswept id hid hzero
  rwa [hqueue, append_nil] at hmem

theorem exists_topoSortOperators (hnodup : g.ids.Nodup)
    (hknown : ∀ e ∈ g.edges, e.source ∈ g.ids ∧ e.target ∈ g.ids) (hacyclic : g.Acyclic) :
    ∃ sorted, g.topoSortOperators = .ok sorted := by
  have hadj := g.mem_ids_of_mem_adj hknown
  have hinv := g.inv_initialKahn.kahn hadj g.operators.length
  have hswept : g.initialKahn.Swept g :=
    fun _ hid hzero => mem_ready.mpr ⟨hid, Int.ofNat_eq_zero.mp hzero⟩
  have hall := hacyclic.mem_result hknown
    (hswept.kahn hadj g.operators.length g.inv_initialKahn)
    (g.topo_initialKahn.kahn hadj g.operators.length g.inv_initialKahn) (kahn_queue hadj)
  refine ⟨(g.kahn g.operators.length g.initialKahn).result, ?_⟩
  simp only [topoSortOperators, bind_eq_ok, require_eq_ok, pure_eq_ok]
  refine ⟨(), forM_ok fun e he => ?_, (), ?_, trivial⟩
  · obtain ⟨hsource, htarget⟩ := hknown e he
    simp only [bind_eq_ok, require_eq_ok]
    exact ⟨(), byID_isSome hsource, byID_isSome htarget⟩
  · have hle := (hnodup.subperm hall).length_le
    rw [ids, length_map, length_map] at hle
    have hge := ((hinv.nodup.of_append_left.of_map _).subperm hinv.taken).length_le
    exact le_antisymm hge hle

/-- **The sort is exact**: it succeeds just when the operators have distinct identifiers, every edge
joins two of them and there is no cycle, and then lists every operator once, the source of an edge
before its target. -/
theorem topoSortOperators_exact (g : JobGraph) : ((∃ sorted, g.topoSortOperators = .ok sorted) ↔
      g.ids.Nodup ∧ (∀ e ∈ g.edges, e.source ∈ g.ids ∧ e.target ∈ g.ids) ∧ g.Acyclic) ∧
    ∀ sorted, g.topoSortOperators = .ok sorted → sorted.Perm g.operators ∧
      (sorted.map OperatorDescriptor.operatorID).Nodup ∧ g.Topological sorted := by
  refine ⟨⟨?_, ?_⟩, ?_⟩
  · rintro ⟨sorted, h⟩
    obtain ⟨hperm, hnodup, htopo, hknown⟩ := topoSortOperators_eq_ok h
    have hids := hperm.map OperatorDescriptor.operatorID
    refine ⟨hids.nodup_iff.mp hnodup, hknown, htopo.acyclic hnodup fun e he => ?_⟩
    exact hids.mem_iff.mpr (hknown e he).2
  · rintro ⟨hnodup, hknown, hacyclic⟩
    exact exists_topoSortOperators hnodup hknown hacyclic
  · intro sorted h
    obtain ⟨hperm, hnodup, htopo, -⟩ := topoSortOperators_eq_ok h
    exact ⟨hperm, hnodup, htopo⟩

end JobGraph

/-! ## Chains -/

section Chains

variable {g : JobGraph} {defaultParallelism : ℤ}

/-- The second operator has no other predecessor than the first, the first no other successor than
the second, and the edge between them is a forward edge. -/
def JobGraph.Fused (g : JobGraph) (a b : OperatorDescriptor) : Prop :=
  ∃ e : EdgeDescriptor, e.shuffle = .forward ∧ g.incoming b.operatorID = [e] ∧
    g.outgoing a.operatorID = [e]

/-- There is a forward edge from the first operator to the second. -/
def JobGraph.ForwardEdge (g : JobGraph) (a b : OperatorDescriptor) : Prop :=
  ∃ e ∈ g.edges, e.source = a.operatorID ∧ e.target = b.operatorID ∧ e.normalized.shuffle = .forward

theorem JobGraph.target_of_incoming (h : e ∈ g.incoming id) : e.target = id :=
  of_decide_eq_true (mem_filter.mp h).2

theorem JobGraph.mem_outgoing (h : e ∈ g.incoming id) : e ∈ g.outgoing e.source :=
  mem_filter.mpr ⟨mem_of_mem_filter h, decide_eq_true rfl⟩

variable {a b x : OperatorDescriptor} {c : ℕ} {s' : Chains}

theorem JobGraph.Fused.forwardEdge (h : g.Fused a b) : g.ForwardEdge a b := by
  obtain ⟨e, hforward, hin, hout⟩ := h
  have hmem : e ∈ g.outgoing a.operatorID := hout ▸ mem_singleton_self e
  have htarget := JobGraph.target_of_incoming (hin ▸ mem_singleton_self e)
  obtain ⟨e₀, he₀, rfl⟩ := mem_map.mp (mem_of_mem_filter hmem)
  exact ⟨e₀, he₀, e₀.normalized_source ▸ of_decide_eq_true (mem_filter.mp hmem).2,
    e₀.normalized_target ▸ htarget, hforward⟩

/-- An operator is fused with one other at most. -/
theorem JobGraph.Fused.right_unique {b' : OperatorDescriptor} (h : g.Fused a b)
    (h' : g.Fused a b') : b.operatorID = b'.operatorID := by
  obtain ⟨e, -, hin, hout⟩ := h
  obtain ⟨e', -, hin', hout'⟩ := h'
  have heq : e = e' := singleton_injective (hout.symm.trans hout')
  have ht := JobGraph.target_of_incoming (hin ▸ mem_singleton_self e)
  have ht' := JobGraph.target_of_incoming (hin' ▸ mem_singleton_self e')
  rw [← ht, ← ht', heq]

/-- What holds of a chain. -/
structure PhysicalChain.Sound (g : JobGraph) (defaultParallelism : ℤ) (ch : PhysicalChain) :
    Prop where
  nonempty : ch.operators ≠ []
  path : ch.operators.IsChain g.Fused
  parallel : ∀ op ∈ ch.operators, op.effective defaultParallelism = ch.parallelism
  positive : 1 ≤ ch.parallelism

/-- The operator is in the chain with this index. -/
def Located (chains : List PhysicalChain) (c : ℕ) (op : OperatorDescriptor) : Prop :=
  ∃ ch, chains[c]? = some ch ∧ op ∈ ch.operators

theorem located_modify {c' : ℕ} (hc : chains[c]? = some ch) :
    Located (chains.modify c (.append op)) c' x ↔ Located chains c' x ∨ c' = c ∧ x = op := by
  rw [Located, Located]
  by_cases hsame : c = c'
  · subst hsame
    rw [getElem?_modify_eq, hc]
    simp [PhysicalChain.append]
  · rw [getElem?_modify_ne _ _ hsame]
    simp [Ne.symm hsame]

theorem located_concat {p : ℕ} :
    Located (chains ++ [⟨[op], p⟩]) c x ↔ Located chains c x ∨ c = chains.length ∧ x = op := by
  rw [Located, Located]
  rcases lt_trichotomy c chains.length with hlt | heq | hgt
  · rw [getElem?_append_left hlt]
    simp [hlt.ne]
  · subst heq
    simp
  · rw [getElem?_eq_none (by rw [length_append, length_singleton]; omega), getElem?_eq_none hgt.le]
    simp [hgt.ne']

/-- What holds of the chains when some operators have been placed. -/
structure Chains.Inv (g : JobGraph) (defaultParallelism : ℤ) (placed : List OperatorDescriptor)
    (s : Chains) : Prop where
  perm : (s.chains.flatMap PhysicalChain.operators).Perm placed
  sound : ∀ ch ∈ s.chains, ch.Sound g defaultParallelism
  member : ∀ id c, s.membership id = some c ↔ ∃ op, Located s.chains c op ∧ op.operatorID = id

/-- The parent that is found is the last operator of its chain, fused with the new one. -/
theorem Chains.Inv.parent (h : s.Inv g defaultParallelism placed) {p : ℤ}
    (hnew : s.membership op.operatorID = none) (hparent : s.parent g op p = some c) :
    ∃ ch, s.chains[c]? = some ch ∧ ch.parallelism = p ∧
      ∃ a ∈ ch.operators.getLast?, g.Fused a op := by
  rw [Chains.parent] at hparent
  split at hparent
  · next edge hin =>
    obtain ⟨hmember, hcond⟩ := Option.filter_eq_some_iff.mp hparent
    obtain ⟨hforward, hone, hpar⟩ := of_decide_eq_true hcond
    obtain ⟨a, ⟨ch, hch, ha⟩, haid⟩ := (h.member _ _).mp hmember
    rw [hch] at hpar
    have hedge : edge ∈ g.outgoing edge.source :=
      JobGraph.mem_outgoing (hin ▸ mem_singleton_self edge)
    have hout : g.outgoing edge.source = [edge] := by
      obtain ⟨e, he⟩ := length_eq_one_iff.mp hone
      rw [he] at hedge ⊢
      rw [mem_singleton.mp hedge]
    have hfused : g.Fused a op := ⟨edge, hforward, hin, haid ▸ hout⟩
    refine ⟨ch, hch, of_decide_eq_true hpar, a, ?_, hfused⟩
    -- an operator after `a` in its chain would be the one that is placed now
    obtain ⟨before, after, hsplit⟩ := append_of_mem ha
    cases after with
    | nil => rw [hsplit, getLast?_concat, Option.mem_some]
    | cons b after =>
      have hpath := (h.sound ch (mem_of_getElem? hch)).path
      rw [hsplit, isChain_append] at hpath
      have hb : g.Fused a b := (isChain_cons_cons.mp hpath.2.1).1
      have hmem : b ∈ ch.operators := hsplit ▸ mem_append_right _ (by simp)
      have hsome := (h.member op.operatorID c).mpr ⟨b, ⟨ch, hch, hmem⟩, hb.right_unique hfused⟩
      rw [hnew] at hsome
      cases hsome
  · cases hparent

theorem flatMap_modify_perm {l : List PhysicalChain} (h : l[c]? = some ch) :
    ((l.modify c (.append op)).flatMap PhysicalChain.operators).Perm
      (l.flatMap PhysicalChain.operators ++ [op]) := by
  induction l generalizing c with
  | nil => cases h
  | cons ch' l ih =>
    cases c with
    | zero =>
      rw [modify_zero_cons, flatMap_cons, flatMap_cons, PhysicalChain.append,
        append_assoc, append_assoc]
      exact perm_append_comm.append_left _
    | succ c =>
      rw [modify_succ_cons, flatMap_cons, flatMap_cons, append_assoc]
      exact (ih h).append_left _

/-- The new operator at the end of a chain whose last operator it is fused with. -/
theorem PhysicalChain.Sound.append (h : ch.Sound g defaultParallelism)
    (ha : a ∈ ch.operators.getLast?) (hfused : g.Fused a op)
    (hpar : ch.parallelism = op.effective defaultParallelism) :
    (ch.append op).Sound g defaultParallelism := by
  refine ⟨append_ne_nil_of_right_ne_nil _ (cons_ne_nil _ _), ?_, ?_, h.positive⟩
  · refine isChain_append.mpr ⟨h.path, isChain_singleton op, ?_⟩
    intro x hx y hy
    rw [head?_cons, Option.mem_some] at hy
    rw [Option.mem_unique hx ha, ← hy]
    exact hfused
  · intro op' hop'
    rcases mem_append.mp hop' with hold | hlast
    · exact h.parallel op' hold
    · rw [mem_singleton.mp hlast]
      exact hpar.symm

/-- The membership stays right when an operator is placed. -/
theorem member_update {chains' : List PhysicalChain} {membership : String → Option ℕ}
    (hnew : membership op.operatorID = none)
    (hmember : ∀ id c, membership id = some c ↔ ∃ op, Located chains c op ∧ op.operatorID = id)
    (hloc : ∀ c' x, Located chains' c' x ↔ Located chains c' x ∨ c' = c ∧ x = op) (id : String)
    (c' : ℕ) : update membership op.operatorID (some c) id = some c' ↔
      ∃ x, Located chains' c' x ∧ x.operatorID = id := by
  by_cases hid : id = op.operatorID
  · subst hid
    rw [update_self]
    constructor
    · intro hc
      exact ⟨op, (hloc c' op).mpr (.inr ⟨(Option.some.inj hc).symm, rfl⟩), rfl⟩
    · rintro ⟨x, hx, hxid⟩
      rcases (hloc c' x).mp hx with hold | ⟨rfl, -⟩
      · have hsome := (hmember op.operatorID c').mpr ⟨x, hold, hxid⟩
        rw [hnew] at hsome
        cases hsome
      · rfl
  · rw [update_of_ne hid, hmember]
    constructor
    · rintro ⟨x, hx, hxid⟩
      exact ⟨x, (hloc c' x).mpr (.inl hx), hxid⟩
    · rintro ⟨x, hx, hxid⟩
      rcases (hloc c' x).mp hx with hold | ⟨-, rfl⟩
      · exact ⟨x, hold, hxid⟩
      · exact absurd hxid.symm hid

theorem Chains.Inv.place (h : s.Inv g defaultParallelism placed)
    (hplace : s.place g defaultParallelism op = .ok s') :
    s'.Inv g defaultParallelism (placed ++ [op]) := by
  simp only [Chains.place, bind_eq_ok, require_eq_ok, pure_eq_ok] at hplace
  obtain ⟨-, hnew, -, hpos, hs'⟩ := hplace
  cases hparent : s.parent g op (op.effective defaultParallelism) with
  | some c =>
    rw [hparent] at hs'
    subst hs'
    obtain ⟨ch, hch, hpar, a, ha, hfused⟩ := h.parent hnew hparent
    refine ⟨(flatMap_modify_perm hch).trans (h.perm.append_right _), ?_,
      member_update hnew h.member fun c' x => located_modify hch⟩
    intro ch' hch'
    obtain ⟨c', hc'⟩ := mem_iff_getElem?.mp hch'
    by_cases hsame : c = c'
    · subst hsame
      rw [getElem?_modify_eq, hch] at hc'
      cases hc'
      exact (h.sound ch (mem_of_getElem? hch)).append ha hfused hpar
    · rw [getElem?_modify_ne _ _ hsame] at hc'
      exact h.sound ch' (mem_of_getElem? hc')
  | none =>
    rw [hparent] at hs'
    subst hs'
    refine ⟨?_, ?_, member_update hnew h.member fun c' x => located_concat⟩
    · rw [flatMap_append]
      exact h.perm.append_right [op]
    · intro ch' hch'
      rcases mem_append.mp hch' with hold | hlast
      · exact h.sound ch' hold
      · rw [mem_singleton.mp hlast]
        refine ⟨cons_ne_nil _ _, isChain_singleton op, ?_, by dsimp only; omega⟩
        intro op' hop'
        rw [mem_singleton.mp hop']
        dsimp only
        omega

/-- **What the chains are.** -/
theorem planPhysicalChains_inv (h : planPhysicalChains g defaultParallelism = .ok s) :
    s.Inv g defaultParallelism g.operators ∧ g.ids.Nodup ∧
      ∀ e ∈ g.edges, e.source ∈ g.ids ∧ e.target ∈ g.ids := by
  simp only [planPhysicalChains, bind_eq_ok] at h
  obtain ⟨sorted, hsorted, hplace⟩ := h
  obtain ⟨hperm, hnodup, -, hedges⟩ := JobGraph.topoSortOperators_eq_ok hsorted
  have hempty : ({} : Chains).Inv g defaultParallelism [] := by
    refine ⟨.nil, fun ch hch => absurd hch not_mem_nil, fun id c => ?_⟩
    refine iff_of_false (fun h => by cases h) ?_
    rintro ⟨op, ⟨ch, hch, -⟩, -⟩
    cases hch
  have hinv := foldlM_invariant (fun placed s => Chains.Inv g defaultParallelism placed s)
    (fun _ _ _ _ hs => hs.place) hempty hplace
  exact ⟨{ hinv with perm := hinv.perm.trans hperm },
    (hperm.map OperatorDescriptor.operatorID).nodup_iff.mp hnodup, hedges⟩

/-! ### Edges within a chain -/

/-- The operators of a chain stand in the order in which they were placed. -/
theorem Chains.place_sublist (h : ∀ ch ∈ s.chains, ch.operators.Sublist placed)
    (hplace : s.place g defaultParallelism op = .ok s') :
    ∀ ch ∈ s'.chains, ch.operators.Sublist (placed ++ [op]) := by
  simp only [Chains.place, bind_eq_ok, require_eq_ok, pure_eq_ok] at hplace
  obtain ⟨-, -, -, -, hs'⟩ := hplace
  have hkeep : ∀ ch ∈ s.chains, ch.operators.Sublist (placed ++ [op]) := fun ch hch =>
    (h ch hch).trans (sublist_append_left _ _)
  split at hs'
  · next c _ =>
    subst hs'
    intro ch hch
    obtain ⟨c', hc'⟩ := mem_iff_getElem?.mp hch
    by_cases hsame : c = c'
    · subst hsame
      rw [getElem?_modify_eq] at hc'
      obtain ⟨ch₀, hch₀, rfl⟩ := Option.map_eq_some_iff.mp hc'
      exact (h ch₀ (mem_of_getElem? hch₀)).append (.refl [op])
    · rw [getElem?_modify_ne _ _ hsame] at hc'
      exact hkeep ch (mem_of_getElem? hc')
  · subst hs'
    intro ch hch
    rcases mem_append.mp hch with hold | hlast
    · exact hkeep ch hold
    · rw [mem_singleton.mp hlast]
      exact sublist_append_right _ _

theorem chains_sublist (h : planPhysicalChains g defaultParallelism = .ok s) :
    ∃ sorted, g.Topological sorted ∧ (sorted.map OperatorDescriptor.operatorID).Nodup ∧
      ∀ ch ∈ s.chains, ch.operators.Sublist sorted := by
  simp only [planPhysicalChains, bind_eq_ok] at h
  obtain ⟨sorted, hsorted, hplace⟩ := h
  obtain ⟨-, hnodup, htopo, -⟩ := JobGraph.topoSortOperators_eq_ok hsorted
  refine ⟨sorted, htopo, hnodup, ?_⟩
  exact foldlM_invariant
    (fun placed (s : Chains) => ∀ ch ∈ s.chains, ch.operators.Sublist placed)
    (fun _ _ _ _ hs => Chains.place_sublist hs) (fun ch hch => absurd hch not_mem_nil) hplace

/-- **An edge within a chain is a forward edge**: the first operator of a chain has no predecessor
in it, and the others have one predecessor each. -/
theorem forward_of_internal (h : planPhysicalChains g defaultParallelism = .ok s)
    (hch : ch ∈ s.chains) (he : e ∈ g.edges)
    (hsource : e.source ∈ ch.operators.map OperatorDescriptor.operatorID)
    (htarget : e.target ∈ ch.operators.map OperatorDescriptor.operatorID) :
    e.normalized.shuffle = .forward := by
  obtain ⟨sorted, htopo, hnodup, hsub⟩ := chains_sublist h
  obtain ⟨hinv, -, -⟩ := planPhysicalChains_inv h
  obtain ⟨b, hb, hbid⟩ := mem_map.mp htarget
  obtain ⟨before, after, hsplit⟩ := append_of_mem hb
  rcases eq_nil_or_concat before with rfl | ⟨before', c, rfl⟩
  · -- the first of its chain: the source would stand before and after it
    have hsub := hsub ch hch
    rw [hsplit, nil_append] at hsub
    obtain ⟨r₁, r₂, hr, hbr, hafter⟩ := cons_sublist_iff.mp hsub
    obtain ⟨x, y, rfl⟩ := append_of_mem hbr
    have hsorted : sorted = x ++ b :: (y ++ r₂) := by
      rw [hr, append_assoc, cons_append]
    have hfirst := htopo x b _ hsorted e he hbid.symm
    have hlater : e.source ∈ (b :: (y ++ r₂)).map OperatorDescriptor.operatorID := by
      obtain ⟨a, ha, haid⟩ := mem_map.mp hsource
      rw [← haid]
      rw [hsplit, nil_append] at ha
      rcases mem_cons.mp ha with rfl | hrest
      · exact mem_map_of_mem mem_cons_self
      · exact mem_map_of_mem
          (mem_cons_of_mem _ (mem_append_right _ (hafter.subset hrest)))
    rw [hsorted, map_append] at hnodup
    exact absurd rfl ((nodup_append.mp hnodup).2.2 _ hfirst _ hlater)
  · rw [concat_eq_append, append_assoc, singleton_append] at hsplit
    have hpath := (hinv.sound ch hch).path
    rw [hsplit, isChain_append] at hpath
    obtain ⟨e', hforward, hin, -⟩ := (isChain_cons_cons.mp hpath.2.1).1
    have hmem : e.normalized ∈ g.incoming b.operatorID := by
      refine mem_filter.mpr ⟨mem_map_of_mem he, decide_eq_true ?_⟩
      rw [EdgeDescriptor.normalized_target, hbid]
    rw [hin, mem_singleton] at hmem
    rw [hmem]
    exact hforward

end Chains

end Wire.Planner
