import Wire.Coordinator.System

/-!
# Placement

`assignTasks` deals the tasks out in turn to the live workers with free slots, the one with the most
slots first.  It compares the number of tasks with the sum of the slots and not with the slots of
each worker, so that a worker with few slots can get more tasks than it has.

The workers come from a map and are sorted by an algorithm that is not stable: `sorted` is any order
of them by descending slots.
-/

namespace Wire.Coordinator

open Guard List Nat

/-- The workers that tasks can be placed on, with their free slots. -/
def State.eligible (cfg : Config) (o : Oracle) (s : State) : List (WorkerID × ℕ) :=
  (s.mem.workers.entries.filter fun e =>
    0 < e.2.taskSlotsAvailable ∧ e.2.live cfg o.now).map fun e => (e.1, e.2.taskSlotsAvailable)

/-- `assignTasks`, on the sorted workers. -/
def assignTasks (sorted : List (WorkerID × ℕ)) (tasks : List TaskDescriptor) :
    Except String (List (TaskDescriptor × WorkerID)) := do
  let need := tasks.length
  let total := (sorted.map (·.2)).sum
  require (need ≤ total) s!"insufficient slots: need {need}, have {total}"
  pure (tasks.zipIdx.map fun x => (x.1, ((sorted[x.2 % sorted.length]?).map (·.1)).getD 0))

/-- The number of tasks that the worker at a position gets. -/
def share (workers tasks k : ℕ) : ℕ := tasks / workers + if k < tasks % workers then 1 else 0

section

variable {sorted : List (WorkerID × ℕ)} {tasks : List TaskDescriptor}
  {placed : List (TaskDescriptor × WorkerID)} (h : assignTasks sorted tasks = .ok placed)
include h

/-- Every task is placed once. -/
theorem tasks_placed : placed.map (·.1) = tasks := by
  simp only [assignTasks, bind_eq_ok, require_eq_ok, pure_eq_ok] at h
  obtain ⟨-, -, rfl⟩ := h
  rw [map_map]
  exact zipIdx_map_fst 0 tasks

theorem mem_placed {a : TaskDescriptor × WorkerID} (ha : a ∈ placed) : ∃ w ∈ sorted, a.2 = w.1 := by
  simp only [assignTasks, bind_eq_ok, require_eq_ok, pure_eq_ok] at h
  obtain ⟨-, hle, rfl⟩ := h
  obtain ⟨x, hx, rfl⟩ := mem_map.mp ha
  have hpos : 0 < sorted.length := by
    have htasks := length_pos_of_mem hx
    rw [length_zipIdx] at htasks
    by_contra hnone
    rw [eq_nil_of_length_eq_zero (Nat.eq_zero_of_not_pos hnone), map_nil, sum_nil] at hle
    omega
  have hlt := mod_lt x.2 hpos
  refine ⟨sorted[x.2 % sorted.length], getElem_mem hlt, ?_⟩
  rw [getElem?_eq_getElem hlt, Option.map_some, Option.getD_some]

theorem countP_placed (hnodup : (sorted.map (·.1)).Nodup) {k : ℕ} {w : WorkerID × ℕ}
    (hk : sorted[k]? = some w) :
    (placed.countP fun a => a.2 = w.1) = share sorted.length tasks.length k := by
  simp only [assignTasks, bind_eq_ok, require_eq_ok, pure_eq_ok] at h
  obtain ⟨-, -, rfl⟩ := h
  obtain ⟨hlt, rfl⟩ := List.getElem?_eq_some_iff.mp hk
  have hpos : 0 < sorted.length := by omega
  have hturn : ∀ i, ((sorted[i % sorted.length]?).map (·.1)).getD 0 = sorted[k].1 ↔
      i ≡ k [MOD sorted.length] := by
    intro i
    have hi := mod_lt i hpos
    rw [getElem?_eq_getElem hi, Option.map_some, Option.getD_some, Nat.ModEq, mod_eq_of_lt hlt]
    have hinj := hnodup.get_inj_iff (i := ⟨i % sorted.length, by simpa using hi⟩)
      (j := ⟨k, by simpa using hlt⟩)
    simpa using hinj
  have hcount := count_modEq_card tasks.length hpos k
  rw [mod_eq_of_lt hlt, count_eq_card_filter_range] at hcount
  calc (tasks.zipIdx.map _).countP (fun a : TaskDescriptor × WorkerID => a.2 = sorted[k].1)
      = tasks.zipIdx.countP ((fun i => i ≡ k [MOD sorted.length]) ∘ Prod.snd) := by
        rw [countP_map]
        exact countP_congr fun x _ => by simpa using hturn x.2
    _ = (range tasks.length).countP fun i => i ≡ k [MOD sorted.length] := by
        rw [← countP_map, zipIdx_map_snd, range_eq_range']
    _ = share sorted.length tasks.length k := by
        rw [share, ← hcount, countP_eq_length_filter]
        rfl

end

/-- An order in which the workers may come: from a map, then sorted by their slots. -/
structure State.Sorted (cfg : Config) (o : Oracle) (s : State) (sorted : List (WorkerID × ℕ)) :
    Prop where
  perm : sorted.Perm (s.eligible cfg o)
  descending : sorted.Pairwise fun a b => b.2 ≤ a.2

variable {cfg : Config} {o : Oracle} {s : State} {sorted : List (WorkerID × ℕ)}

theorem State.Sorted.nodup (h : s.Sorted cfg o sorted) : (sorted.map (·.1)).Nodup := by
  refine (h.perm.map _).nodup_iff.mpr ?_
  rw [State.eligible, map_map]
  exact (filter_sublist.map Sigma.fst).nodup s.mem.workers.nodupKeys

theorem State.Sorted.worker (h : s.Sorted cfg o sorted) {w : WorkerID × ℕ} (hw : w ∈ sorted) :
    ∃ worker, s.mem.workers.lookup w.1 = some worker ∧ worker.live cfg o.now ∧
      worker.taskSlotsAvailable = w.2 := by
  obtain ⟨e, he, rfl⟩ := mem_map.mp (h.perm.mem_iff.mp hw)
  obtain ⟨hmem, hlive⟩ := mem_filter.mp he
  exact ⟨e.2, AList.mem_lookup_iff.mpr hmem, (of_decide_eq_true hlive).2, rfl⟩

/-- **A placement keeps within the slots of each worker just when the turns do.**  The tasks are
placed once each; that no worker gets more than it has slots, and that the placement passes the
check before it is published, is the case just when the share of every worker is at most its slots.
-/
theorem assignTasks_feasible_iff (cfg : Config) (o : Oracle) (s : State)
    {sorted : List (WorkerID × ℕ)} (hsorted : s.Sorted cfg o sorted) (tasks : List TaskDescriptor)
    (htotal : tasks.length ≤ (sorted.map (·.2)).sum) (attempt : AttemptID) :
    (∃ placed, assignTasks sorted tasks = .ok placed ∧ placed.map (·.1) = tasks ∧
      (∀ w ∈ sorted, (placed.countP fun a => a.2 = w.1) ≤ w.2) ∧
      s.placementLive cfg o ⟨attempt, placed, []⟩ = true) ↔
    ∀ k w, sorted[k]? = some w → share sorted.length tasks.length k ≤ w.2 := by
  constructor
  · rintro ⟨placed, h, -, hslots, -⟩ k w hk
    rw [← countP_placed h hsorted.nodup hk]
    exact hslots w (mem_of_getElem? hk)
  · intro hshare
    obtain ⟨placed, h⟩ : ∃ placed, assignTasks sorted tasks = .ok placed := by
      simp only [assignTasks, bind_eq_ok, require_eq_ok, pure_eq_ok]
      exact ⟨_, (), htotal, rfl⟩
    have hslots : ∀ w ∈ sorted, (placed.countP fun a => a.2 = w.1) ≤ w.2 := by
      intro w hw
      obtain ⟨k, hk⟩ := mem_iff_getElem?.mp hw
      rw [countP_placed h hsorted.nodup hk]
      exact hshare k w hk
    refine ⟨placed, h, tasks_placed h, hslots, ?_⟩
    simp only [State.placementLive, all_nil, Bool.and_true, all_eq_true]
    intro a ha
    obtain ⟨w, hw, haw⟩ := mem_placed h ha
    obtain ⟨worker, hlookup, hlive, hfree⟩ := hsorted.worker hw
    have hle := hslots w hw
    rw [haw, hlookup, Option.any_some]
    simp only [hlive, hfree, hle, true_and, true_or, decide_true]

namespace Sample

/-- Two live workers, with three slots and with one. -/
def uneven : State :=
  let slow : WorkerMeta := { lastHeartbeat := 1, taskSlotsAvailable := 1 }
  { mem.workers := AList.insert 1 { slow with taskSlotsAvailable := 3 } (AList.insert 2 slow ∅) }

theorem sorted_uneven : uneven.Sorted config oracle [(1, 3), (2, 1)] where
  perm := by decide
  descending := by decide

theorem assignTasks_feasible_two : ∃ placed,
    assignTasks [(1, 3), (2, 1)] [{ taskID := 10 }, { taskID := 11 }] = .ok placed ∧
      uneven.placementLive config oracle ⟨1, placed, []⟩ = true := by
  obtain ⟨placed, h, -, -, hlive⟩ := (assignTasks_feasible_iff config oracle uneven sorted_uneven
    [{ taskID := 10 }, { taskID := 11 }] (by decide) 1).mpr (by
      intro k w hk
      match k with
      | 0 => cases hk; decide
      | 1 => cases hk; decide)
  exact ⟨placed, h, hlive⟩

/-- There are as many slots as tasks, and the worker with one slot gets two tasks. -/
theorem assignTasks_overloads : ∃ placed,
    assignTasks [(1, 3), (2, 1)] ([10, 11, 12, 13].map fun id => { taskID := id }) = .ok placed ∧
      (placed.countP fun a => a.2 = 2) = 2 ∧
      uneven.placementLive config oracle ⟨1, placed, []⟩ = false :=
  ⟨_, rfl, by decide, by decide⟩

end Sample

end Wire.Coordinator
