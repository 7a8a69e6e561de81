import Wire.Engine.WindowProcessor

/-!
# Snapshots of windows

`Checkpoint` writes the windows of all keys, in the order of the keys, with the configuration, the
watermark and the statistics.  `Restore` checks a snapshot completely before it takes it over.

The JSON text and its checksum are read back as they were written, so a snapshot is a value here.
`snapshot_lossless` says that a snapshot is accepted and gives the processor back; what follows then
is the same call by call.
-/

namespace Wire.Engine.Window

open List Function

/-- `windowSnapshot`. -/
structure WindowSnapshot where
  version : ℕ
  checkpointID : ℕ
  config : WindowConfig
  watermark : ℤ
  windows : List RetainedWindow
  stats : WindowStats

/-- The errors of `Restore`; all of them are `ErrSnapshotCorrupt`. -/
inductive RestoreError where
  | incompatible | invalidRetainedWindow | duplicateRetainedWindow | invalidWindowBounds
  | unmergedSessionWindows

/-- The maps of the loop of `Restore`. -/
structure Restoring where
  keys : Finset (List (Fin 256)) := ∅
  windows : List (Fin 256) → List RetainedWindow := fun _ => []

namespace WindowProcessor

/-- `Checkpoint`. -/
def checkpoint (p : WindowProcessor) (checkpointID : ℕ) : WindowSnapshot where
  version := 1
  checkpointID
  config := p.config
  watermark := p.watermark
  windows := p.keys.sort.flatMap p.windows
  stats := p.stats

/-- The bounds of a window of a grid are wrong. -/
def misaligned (c : WindowConfig) (w : RetainedWindow) : Bool :=
  match c.kind.grid with
  | none => false
  | some (size, step) =>
    match windowEnd w.start size with
    | .error _ => true
    | .ok end_ => w.start % step ≠ 0 || end_ ≠ w.end_

/-- The loop of `Restore`.  `seen` has the bounds of the windows that were taken over. -/
def restoreWindows (c : WindowConfig) (watermark : ℤ) :
    List RetainedWindow → Restoring → Except RestoreError Restoring
  | [], s => .ok s
  | w :: rest, s =>
    if w.end_ ≤ w.start ∨ c.deadline w.end_ ≤ watermark ∨ (w.fired ∧ !w.emitted) ∨
        w.fired ≠ decide (w.end_ ≤ watermark) then .error .invalidRetainedWindow
    else
      let key := str w.key
      if (s.windows key).any fun v => v.start = w.start ∧ v.end_ = w.end_ then
        .error .duplicateRetainedWindow
      else if misaligned c w then .error .invalidWindowBounds
      else restoreWindows c watermark rest
        { keys := insert key s.keys
          windows := update s.windows key (s.windows key ++ [w]) }

/-- Two neighbours of a list of sessions touch. -/
def unmerged : List RetainedWindow → Bool
  | a :: b :: rest => decide (b.start ≤ a.end_) || unmerged (b :: rest)
  | _ => false

/-- `Restore`.  The test of the length and the checksum, which comes before the snapshot is decoded,
is left out: the snapshots here are values and not bytes. -/
def restore (p : WindowProcessor) (snapshot : WindowSnapshot) :
    Except RestoreError WindowProcessor :=
  if snapshot.version ≠ 1 ∨ snapshot.config ≠ p.config ∨
      p.config.maxWindows < snapshot.windows.length ∨
      snapshot.stats.retainedWindows ≠ snapshot.windows.length then .error .incompatible
  else match restoreWindows p.config snapshot.watermark snapshot.windows {} with
    | .error e => .error e
    | .ok s =>
      if p.config.kind.grid = none ∧ ∃ k ∈ s.keys, unmerged (sortByStart (s.windows k)) then
        .error .unmergedSessionWindows
      else .ok { p with
        keys := s.keys
        windows := fun k => if k ∈ s.keys then sortByStart (s.windows k) else s.windows k
        watermark := snapshot.watermark
        stats := snapshot.stats }

section Restore

variable {c : WindowConfig} {watermark : ℤ} {p : WindowProcessor}

/-- The windows of a key in a list. -/
def ofKey (k : List (Fin 256)) (ws : List RetainedWindow) : List RetainedWindow :=
  ws.filter fun w => str w.key = k

theorem ofKey_append (k : List (Fin 256)) (ws ws' : List RetainedWindow) :
    ofKey k (ws ++ ws') = ofKey k ws ++ ofKey k ws' :=
  filter_append ..

/-- The loop of `Restore` takes over windows of which each is kept and no two are the same. -/
theorem restoreWindows_eq_ok (taken : List RetainedWindow) {ws : List RetainedWindow}
    {s : Restoring} (hwindows : ∀ k, s.windows k = ofKey k taken)
    (hkeys : ∀ k, k ∈ s.keys ↔ ofKey k taken ≠ [])
    (heach : ∀ w ∈ ws, Retained c watermark (str w.key) w)
    (hdistinct : ∀ k, ((ofKey k (taken ++ ws)).map fun w => w.start).Nodup) :
    ∃ s', restoreWindows c watermark ws s = .ok s' ∧
      (∀ k, s'.windows k = ofKey k (taken ++ ws)) ∧
      ∀ k, k ∈ s'.keys ↔ ofKey k (taken ++ ws) ≠ [] := by
  induction ws generalizing taken s with
  | nil =>
    rw [append_nil]
    exact ⟨s, rfl, hwindows, hkeys⟩
  | cons w ws ih =>
    have hw := heach w mem_cons_self
    have hself : ofKey (str w.key) [w] = [w] :=
      filter_cons_of_pos (decide_eq_true rfl)
    have hvalid : ¬ (w.end_ ≤ w.start ∨ c.deadline w.end_ ≤ watermark ∨
        (w.fired = true ∧ (!w.emitted) = true) ∨ w.fired ≠ decide (w.end_ ≤ watermark)) := by
      rintro (h | h | ⟨hfired, hemitted⟩ | h)
      · exact absurd hw.bounds.lt (not_lt.mpr h)
      · exact absurd hw.kept (not_lt.mpr h)
      · rw [hw.emitted hfired] at hemitted
        cases hemitted
      · exact h hw.due
    have hnew : ¬ ((s.windows (str w.key)).any fun v =>
        decide (v.start = w.start ∧ v.end_ = w.end_)) = true := by
      intro hany
      obtain ⟨v, hv, hsame⟩ := any_eq_true.mp hany
      rw [hwindows] at hv
      have hnodup := hdistinct (str w.key)
      rw [← singleton_append, ofKey_append, ofKey_append, hself, map_append, nodup_append] at hnodup
      exact hnodup.2.2 v.start (mem_map_of_mem hv) w.start mem_cons_self
        (of_decide_eq_true hsame).1
    have haligned : ¬ misaligned c w = true := by
      rw [misaligned]
      cases hgrid : c.kind.grid with
      | none => exact Bool.false_ne_true
      | some grid =>
        obtain ⟨size, step⟩ := grid
        obtain ⟨hmod, hend⟩ := hw.bounds.aligned size step hgrid
        simp [hend, hmod]
    rw [restoreWindows, if_neg hvalid]
    rw [if_neg hnew, if_neg haligned]
    have happend : taken ++ w :: ws = (taken ++ [w]) ++ ws := by simp
    rw [happend]
    refine ih (taken ++ [w]) ?_ ?_ (fun v hv => heach v (mem_cons_of_mem w hv))
      (happend ▸ hdistinct)
    · intro k
      rw [ofKey_append]
      dsimp only
      by_cases hk : k = str w.key
      · rw [hk, update_self, hself, hwindows]
      · have hother : ofKey k [w] = [] :=
          filter_cons_of_neg (by simpa using fun h => hk h.symm)
        rw [update_of_ne hk, hother, append_nil, hwindows]
    · intro k
      rw [Finset.mem_insert, hkeys, ofKey_append]
      by_cases hk : k = str w.key
      · rw [hk, hself]
        simp
      · have hother : ofKey k [w] = [] :=
          filter_cons_of_neg (by simpa using fun h => hk h.symm)
        rw [hother, append_nil, or_iff_right hk]

/-- The windows of a key in a snapshot are those of the processor. -/
theorem ofKey_checkpoint (hp : p.Inv) (k : List (Fin 256)) :
    ofKey k (p.keys.sort.flatMap p.windows) = p.windows k := by
  have hrow : ∀ k', ofKey k (p.windows k') = if k' = k then p.windows k else [] := by
    intro k'
    by_cases hk : k' = k
    · rw [if_pos hk, hk]
      exact filter_eq_self.mpr fun w hw => decide_eq_true ((hp.rows k).each w hw).key
    · rw [if_neg hk]
      refine filter_eq_nil_iff.mpr fun w hw => ?_
      rw [((hp.rows k').each w hw).key, decide_eq_true_eq]
      exact hk
  have hflat : ∀ keys : List (List (Fin 256)), keys.Nodup →
      ofKey k (keys.flatMap p.windows) = if k ∈ keys then p.windows k else [] := by
    intro keys hnodup
    induction keys with
    | nil => rfl
    | cons k' keys ih =>
      rw [nodup_cons] at hnodup
      rw [flatMap_cons, ofKey_append, hrow, ih hnodup.2]
      by_cases hk : k' = k
      · rw [if_pos hk, if_neg (hk ▸ hnodup.1), append_nil, if_pos (mem_cons.mpr (.inl hk.symm))]
      · rw [if_neg hk, nil_append]
        refine if_congr ?_ rfl rfl
        rw [mem_cons, or_iff_right fun h => hk h.symm]
  rw [hflat _ (Finset.sort_nodup _ _)]
  refine (if_congr (Finset.mem_sort _) rfl rfl).trans ?_
  split
  · rfl
  · next hk => exact (not_not.mp fun h => hk ((hp.keys k).mpr h)).symm

theorem length_checkpoint (hp : p.Inv) :
    ((p.keys.sort.flatMap p.windows).length : ℤ) = p.stats.retainedWindows := by
  have hsum : ∑ k ∈ p.keys, (p.windows k).length =
      (p.keys.sort.map fun k => (p.windows k).length).sum := by
    have hlist := sum_toFinset (fun k => (p.windows k).length)
      (Finset.sort_nodup p.keys fun a b => a ≤ b)
    rwa [Finset.sort_toFinset] at hlist
  rw [hp.count, length_flatMap, ← hsum, Nat.cast_sum]

theorem unmerged_eq_false {ws : List RetainedWindow}
    (h : ws.Pairwise fun a b => a.end_ < b.start) : unmerged ws = false := by
  induction ws with
  | nil => rfl
  | cons a ws ih =>
    cases ws with
    | nil => rfl
    | cons b ws =>
      rw [pairwise_cons] at h
      rw [unmerged, ih h.2, Bool.or_false]
      exact decide_eq_false (not_le.mpr (h.1 b mem_cons_self))

/-- A snapshot is accepted, and gives the processor back. -/
theorem restore_checkpoint {fresh : WindowProcessor} (hp : p.Inv) (hfresh : fresh.config = p.config)
    (checkpointID : ℕ) : fresh.restore (p.checkpoint checkpointID) = .ok p := by
  have hlength := length_checkpoint hp
  have heach : ∀ w ∈ p.keys.sort.flatMap p.windows,
      Retained p.config p.watermark (str w.key) w := by
    intro w hw
    obtain ⟨k, -, hw⟩ := mem_flatMap.mp hw
    have hretained := (hp.rows k).each w hw
    rwa [hretained.key]
  obtain ⟨s, hs, hwindows, hkeys⟩ := restoreWindows_eq_ok [] (s := {})
    (fun _ => rfl) (fun k => by simp [ofKey]) heach (fun k => by
      rw [nil_append, ofKey_checkpoint hp]
      exact pairwise_map.mpr ((hp.rows k).sorted.imp fun hlt => hlt.ne))
  have hwindows' : ∀ k, s.windows k = p.windows k := fun k => by
    rw [hwindows, nil_append, ofKey_checkpoint hp]
  have hsorted : ∀ k, sortByStart (s.windows k) = p.windows k := fun k => by
    rw [hwindows', (hp.rows k).sortByStart_eq]
  have hkeys' : s.keys = p.keys := by
    ext k
    rw [hkeys, nil_append, ofKey_checkpoint hp, hp.keys]
  have hcompatible : ¬ ((p.checkpoint checkpointID).version ≠ 1 ∨
      (p.checkpoint checkpointID).config ≠ fresh.config ∨
      fresh.config.maxWindows < (p.checkpoint checkpointID).windows.length ∨
      (p.checkpoint checkpointID).stats.retainedWindows ≠
        (p.checkpoint checkpointID).windows.length) := by
    rintro (h | h | h | h)
    · exact h rfl
    · exact h hfresh.symm
    · rw [hfresh] at h
      have hle := hp.limit
      change p.config.maxWindows < ((p.keys.sort.flatMap p.windows).length : ℤ) at h
      omega
    · exact h hlength.symm
  have hmerged : ¬ (fresh.config.kind.grid = none ∧
      ∃ k ∈ s.keys, unmerged (sortByStart (s.windows k)) = true) := by
    rintro ⟨hkind, k, -, hunmerged⟩
    rw [hsorted, unmerged_eq_false ((hp.rows k).disjoint (hfresh ▸ hkind))] at hunmerged
    cases hunmerged
  have hloop : restoreWindows fresh.config (p.checkpoint checkpointID).watermark
      (p.checkpoint checkpointID).windows {} = .ok s := by
    rw [hfresh]
    exact hs
  rw [restore, if_neg hcompatible, hloop]
  dsimp only
  rw [if_neg hmerged]
  have hfun : (fun k => if k ∈ s.keys then sortByStart (s.windows k) else s.windows k) =
      p.windows := by
    funext k
    rw [hsorted, hwindows', ite_self]
  rw [hfun, hkeys', hfresh]
  rfl

end Restore

end WindowProcessor

section Lossless

variable {agg : WindowAggregator} {p : WindowProcessor}

theorem config_record (p : WindowProcessor) (event : Event) (assigned : List RetainedWindow)
    (s : Accepting) : (p.record event assigned s).1.config = p.config := by
  rw [WindowProcessor.record]
  generalize (if s.accepted = 0 then p.windows (str event.key) else s.next) = next
  split <;> rfl

theorem config_call (p : WindowProcessor) (c : Call) : (p.call agg c).1.config = p.config := by
  cases c with
  | process event =>
    change (p.process agg event).1.config = p.config
    rw [WindowProcessor.process]
    split
    · rfl
    · exact config_record ..
  | advanceWatermark watermark =>
    change (p.advanceWatermark agg watermark).1.config = p.config
    rw [WindowProcessor.advanceWatermark]
    split <;> rfl

theorem config_calls (p : WindowProcessor) (cs : List Call) :
    (p.calls agg cs).1.config = p.config := by
  induction cs generalizing p with
  | nil => rfl
  | cons c cs ih => exact (ih (p.call agg c).1).trans (config_call p c)

/-- **Window snapshots are lossless.**  For every configuration that is accepted, every aggregator
and every sequence of calls, a fresh processor accepts the snapshot, and from then on it has the
same statistics and gives the same replies. -/
theorem snapshot_lossless {c : WindowConfig} {fresh : WindowProcessor}
    (h : newWindowProcessor c = .ok fresh) (agg : WindowAggregator) (cs : List Call)
    (checkpointID : ℕ) :
    ∃ restored, fresh.restore ((fresh.calls agg cs).1.checkpoint checkpointID) = .ok restored ∧
      restored.stats = (fresh.calls agg cs).1.stats ∧
      ∀ cs', (restored.calls agg cs').2 = ((fresh.calls agg cs).1.calls agg cs').2 := by
  have hinv : (fresh.calls agg cs).1.Inv := (WindowProcessor.inv_new h).calls cs
  have hconfig : fresh.config = (fresh.calls agg cs).1.config := (config_calls fresh cs).symm
  exact ⟨_, WindowProcessor.restore_checkpoint hinv hconfig checkpointID, rfl, fun _ => rfl⟩

end Lossless

/-- Sessions that count their events. -/
def countingSessions : WindowConfig where
  kind := .session 10
  allowedLateness := 5
  aggregationID := "count"
  maxWindows := 0

def counting : WindowAggregator where
  createAccumulator := some []
  add accumulator _ := accumulator.map (0 :: ·)
  getResult accumulator := accumulator
  merge a b := some (str a ++ str b)

theorem snapshot_lossless_sessions : ∃ fresh, newWindowProcessor countingSessions = .ok fresh ∧
    ∃ restored, fresh.restore ((fresh.calls counting
      [.process ⟨none, none, 3⟩, .process ⟨none, none, 30⟩, .advanceWatermark 14]).1.checkpoint 1) =
        .ok restored ∧
      restored.stats = (fresh.calls counting
        [.process ⟨none, none, 3⟩, .process ⟨none, none, 30⟩, .advanceWatermark 14]).1.stats ∧
      ∀ cs', (restored.calls counting cs').2 = ((fresh.calls counting
        [.process ⟨none, none, 3⟩, .process ⟨none, none, 30⟩, .advanceWatermark 14]).1.calls
          counting cs').2 :=
  ⟨_, rfl, snapshot_lossless (c := countingSessions) rfl counting _ 1⟩

end Wire.Engine.Window
