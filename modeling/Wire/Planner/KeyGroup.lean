import Wire.Library.Tiling

/-!
# Key groups

A key belongs to a key group, and the key groups are divided among the subtasks of an operator.  The
subtask that owns a group is computed in two ways: `TaskKeyGroupRange` gives the range of a subtask,
`[t * n / p, (t + 1) * n / p)`, and `AssignedTask` the subtask of a group, by an estimate and a
correction.

`assignedTask_eq_iff` says that the two agree: for at most as many subtasks as groups, every group
is in the range of one subtask, which is the one that `AssignedTask` finds.

When the number of subtasks changes, `RescaleMapping` walks along the old and the new ranges at
once. It finds what a comparison of all pairs would find (`rescaleWalk_eq`). -/

namespace Wire.KeyGroup

open Function Guard Nat Tiling List

def defaultNumKeyGroups : ℕ := 128

def minKeyGroups : ℤ := 1

def maxKeyGroups : ℤ := 32768

inductive Error where
  | keyGroupsOutOfRange
  | notPowerOfTwo
  | invalidParallelism
  | parallelismExceedsKeyGroups
  | invalidTaskIndex
deriving DecidableEq

/-- `Config.Validate`. -/
def validate (numKeyGroups parallelism : ℤ) : Except Error Unit := do
  require (minKeyGroups ≤ numKeyGroups ∧ numKeyGroups ≤ maxKeyGroups) .keyGroupsOutOfRange
  require (numKeyGroups.toNat &&& (numKeyGroups - 1).toNat = 0) .notPowerOfTwo
  require (1 ≤ parallelism) .invalidParallelism
  require (parallelism ≤ numKeyGroups) .parallelismExceedsKeyGroups

/-- A half-open range of key groups; the bounds are `uint16`. -/
structure KeyGroupRange where
  start : ℕ
  stop : ℕ
deriving DecidableEq

/-- `KeyGroupRange.Contains`. -/
def KeyGroupRange.contains (r : KeyGroupRange) (g : ℕ) : Bool :=
  decide (r.start ≤ g ∧ g < r.stop)

/-- A conversion to `uint16`. -/
def uint16 (n : ℕ) : ℕ := n % 2 ^ 16

/-- `KeyGroup`, for any hash function. -/
def keyGroup {κ : Type} (hash : κ → UInt32) (key : κ) (numKeyGroups : ℕ) : ℕ :=
  uint16 ((hash key).toNat % numKeyGroups)

/-- `AssignedTask`. -/
def assignedTask (g numKeyGroups parallelism : ℕ) : ℕ :=
  let t := g * parallelism / numKeyGroups
  if t + 1 < parallelism ∧ (t + 1) * numKeyGroups / parallelism ≤ g then t + 1 else t

/-- `TaskKeyGroupRange`. -/
def taskKeyGroupRange (taskIndex numKeyGroups parallelism : ℕ) : Except Error KeyGroupRange := do
  validate numKeyGroups parallelism
  require (taskIndex < parallelism) .invalidTaskIndex
  return {
    start := uint16 (taskIndex * numKeyGroups / parallelism)
    stop := uint16 ((taskIndex + 1) * numKeyGroups / parallelism) }

/-- `AllTaskRanges`. -/
def allTaskRanges (numKeyGroups parallelism : ℕ) : Except Error (List KeyGroupRange) := do
  validate numKeyGroups parallelism
  (range parallelism).mapM fun i => taskKeyGroupRange i numKeyGroups parallelism

/-- What two ranges have in common. -/
def KeyGroupRange.inter (r s : KeyGroupRange) : KeyGroupRange :=
  ⟨max r.start s.start, min r.stop s.stop⟩

/-- The range is appended to those of the subtask, if there is anything in it. -/
def addRange (result : ℕ → List KeyGroupRange) (newIdx : ℕ) (range : KeyGroupRange) :
    ℕ → List KeyGroupRange :=
  if range.start < range.stop then update result newIdx (result newIdx ++ [range]) else result

/-- The loop of `RescaleMapping`, from `newIdx` on, with the ranges that are left of both lists. -/
def rescaleWalk (newIdx : ℕ) (result : ℕ → List KeyGroupRange) :
    List KeyGroupRange → List KeyGroupRange → ℕ → List KeyGroupRange
  | oldRange :: olds, newRange :: news =>
    rescaleWalk (if newRange.stop ≤ oldRange.stop then newIdx + 1 else newIdx)
      (addRange result newIdx (newRange.inter oldRange))
      (if oldRange.stop ≤ newRange.stop then olds else oldRange :: olds)
      (if newRange.stop ≤ oldRange.stop then news else newRange :: news)
  | _, _ => result
termination_by olds news => olds.length + news.length
decreasing_by
  split <;> split <;> simp only [length_cons] <;> omega

/-- `RescaleMapping`. -/
def rescaleMapping (numKeyGroups oldParallelism newParallelism : ℕ) :
    Except Error (ℕ → List KeyGroupRange) := do
  let oldRanges ← allTaskRanges numKeyGroups oldParallelism
  let newRanges ← allTaskRanges numKeyGroups newParallelism
  return rescaleWalk 0 (fun _ => []) oldRanges newRanges

/-! ## What is validated -/

/-- What `Config.Validate` leaves of the numbers of groups and subtasks. -/
structure Valid (n p : ℕ) : Prop where
  bound : n ≤ 32768
  parallel : 0 < p
  enough : p ≤ n

theorem valid_of_validate {n p : ℕ} {u : Unit} (h : validate n p = .ok u) : Valid n p := by
  simp only [validate, bind_eq_ok, require_eq_ok] at h
  obtain ⟨-, ⟨-, hbound⟩, -, -, -, hparallel, henough⟩ := h
  rw [maxKeyGroups] at hbound
  exact ⟨by omega, by omega, by omega⟩

/-! ## Owners -/

section Owners

variable {n p g t : ℕ}

/-- The start of the range of a subtask, which is the end of the one before. -/
def boundary (n p t : ℕ) : ℕ := t * n / p

theorem Valid.boundary_lt (h : Valid n p) (ht : t ≤ p) : boundary n p t < 2 ^ 16 := by
  have hle : boundary n p t ≤ n := Nat.div_le_of_le_mul (Nat.mul_le_mul_right n ht)
  exact lt_of_le_of_lt (hle.trans h.bound) (by decide)

theorem boundary_mono (n p : ℕ) : Monotone (boundary n p) := by
  intro t t' hle
  exact Nat.div_le_div_right (Nat.mul_le_mul_right n hle)

theorem boundary_zero (n p : ℕ) : boundary n p 0 = 0 := by
  rw [boundary, Nat.zero_mul, Nat.zero_div]

section

variable (h : Valid n p)
include h

theorem Valid.boundary_self : boundary n p p = n :=
  Nat.mul_div_cancel_left n h.parallel

/-- No range is empty. -/
theorem Valid.boundary_lt_succ (t : ℕ) : boundary n p t < boundary n p (t + 1) := by
  have hstep : boundary n p t + 1 ≤ boundary n p (t + 1) := by
    rw [boundary, boundary, ← add_div_right _ h.parallel, succ_mul]
    exact Nat.div_le_div_right (Nat.add_le_add_left h.enough _)
  exact hstep

/-- The estimate of `AssignedTask` is the owner or the subtask before it. -/
theorem Valid.estimate : boundary n p (g * p / n) ≤ g ∧ g < boundary n p (g * p / n + 2) := by
  have hn : 0 < n := h.parallel.trans_le h.enough
  constructor
  · refine Nat.div_le_of_le_mul ?_
    rw [Nat.mul_comm p g]
    exact div_mul_le_self (g * p) n
  · rw [boundary, ← succ_le_iff, le_div_iff_mul_le h.parallel]
    have hlt : g * p < (g * p / n + 1) * n := by
      rw [succ_mul]
      exact lt_div_mul_add hn
    calc (g + 1) * p = g * p + p := succ_mul g p
      _ ≤ (g * p / n + 1) * n + n := Nat.add_le_add hlt.le h.enough
      _ = (g * p / n + 2) * n := by ring

theorem Valid.assignedTask_spec (hg : g < n) :
    assignedTask g n p < p ∧ boundary n p (assignedTask g n p) ≤ g ∧
      g < boundary n p (assignedTask g n p + 1) := by
  obtain ⟨hle, hlt⟩ := h.estimate (g := g)
  have hp : g * p / n < p := Nat.div_lt_of_lt_mul (Nat.mul_lt_mul_of_pos_right hg h.parallel)
  rw [assignedTask]
  split
  · next hcorrect => exact ⟨hcorrect.1, hcorrect.2, hlt⟩
  · next hkeep =>
    refine ⟨hp, hle, ?_⟩
    by_contra hover
    have hlast : ¬ g * p / n + 1 < p := fun hp' => hkeep ⟨hp', not_lt.mp hover⟩
    have heq : g * p / n + 1 = p := by omega
    rw [heq, h.boundary_self] at hover
    exact hover hg

/-- **A group is owned by one subtask**, the one that `AssignedTask` finds. -/
theorem Valid.assignedTask_eq_iff (hg : g < n) :
    assignedTask g n p = t ↔ boundary n p t ≤ g ∧ g < boundary n p (t + 1) := by
  obtain ⟨-, hle, hlt⟩ := h.assignedTask_spec hg
  constructor
  · rintro rfl
    exact ⟨hle, hlt⟩
  · rintro ⟨hle', hlt'⟩
    rcases lt_trichotomy (assignedTask g n p) t with hbefore | heq | hafter
    · exact absurd (hlt.trans_le ((boundary_mono n p hbefore).trans hle')) (lt_irrefl g)
    · exact heq
    · exact absurd (hlt'.trans_le ((boundary_mono n p hafter).trans hle)) (lt_irrefl g)

end

end Owners

/-! ## Ranges -/

section Ranges

variable {n p : ℕ}

/-- The range of a subtask. -/
def ownRange (n p t : ℕ) : KeyGroupRange := ⟨boundary n p t, boundary n p (t + 1)⟩

theorem Valid.uint16_boundary {t : ℕ} (h : Valid n p) (ht : t ≤ p) :
    uint16 (t * n / p) = boundary n p t :=
  mod_eq_of_lt (h.boundary_lt ht)

theorem taskKeyGroupRange_eq {t : ℕ} (h : validate n p = .ok ()) (ht : t < p) :
    taskKeyGroupRange t n p = .ok (ownRange n p t) := by
  have hvalid := valid_of_validate h
  simp only [taskKeyGroupRange, bind_eq_ok, require_eq_ok, pure_eq_ok]
  refine ⟨(), h, (), ht, ?_⟩
  rw [hvalid.uint16_boundary ht.le, hvalid.uint16_boundary (succ_le_of_lt ht), ownRange]

theorem mapM_ranges (h : validate n p = .ok ()) {l : List ℕ} (hl : ∀ i ∈ l, i < p) :
    (l.mapM fun i => taskKeyGroupRange i n p) = .ok (l.map (ownRange n p)) := by
  induction l with
  | nil => rfl
  | cons i l ih =>
    rw [mapM_cons, taskKeyGroupRange_eq h (hl i mem_cons_self),
      ih fun j hj => hl j (mem_cons_of_mem i hj)]
    rfl

theorem allTaskRanges_of_validate (h : validate n p = .ok ()) :
    allTaskRanges n p = .ok ((range p).map (ownRange n p)) := by
  rw [allTaskRanges, h]
  exact mapM_ranges h fun i => mem_range.mp

/-- The ranges of all subtasks are what they should be. -/
theorem allTaskRanges_eq {rs : List KeyGroupRange} (h : allTaskRanges n p = .ok rs) :
    validate n p = .ok () ∧ rs = (range p).map (ownRange n p) := by
  obtain ⟨u, hvalid, -⟩ := bind_eq_ok.mp h
  rw [allTaskRanges_of_validate hvalid] at h
  exact ⟨hvalid, (Except.ok.inj h).symm⟩

/-- Ranges of which each begins where the one before ends, from one key group to another. -/
abbrev Tile : ℤ → ℤ → List KeyGroupRange → Prop :=
  Tiles (fun r => (r.start : ℤ)) fun r => (r.stop : ℤ)

/-- **The ranges of the subtasks tile the key groups.** -/
theorem Valid.tile (h : Valid n p) : Tile 0 n ((range p).map (ownRange n p)) := by
  have hsome : ∀ k, Tile 0 (boundary n p k) ((range k).map (ownRange n p)) := by
    intro k
    induction k with
    | zero =>
      rw [boundary_zero]
      exact .nil _
    | succ k ih =>
      rw [range_succ, map_append]
      exact ih.concat (x := ownRange n p k) rfl (Int.ofNat_lt.mpr (h.boundary_lt_succ k))
  have hall := hsome p
  rwa [h.boundary_self] at hall

/-- **Ownership is exact.**  The ranges of the subtasks tile the key groups, the subtask found for a
group is the one whose range has it, and no boundary is cut off by the conversion to `uint16`. -/
theorem ownership_exact (h : validate n p = .ok ()) :
    ∃ ranges, allTaskRanges n p = .ok ranges ∧ ranges.length = p ∧ Tile 0 n ranges ∧
      (∀ g < n, assignedTask g n p < p ∧
        ∀ t r, ranges[t]? = some r → (r.contains g = true ↔ t = assignedTask g n p)) ∧
      ∀ t ≤ p, uint16 (t * n / p) = t * n / p := by
  have hvalid := valid_of_validate h
  refine ⟨_, allTaskRanges_of_validate h, by simp, hvalid.tile, fun g hg => ?_,
    fun t ht => hvalid.uint16_boundary ht⟩
  refine ⟨(hvalid.assignedTask_spec hg).1, fun t r hr => ?_⟩
  obtain ⟨-, rfl⟩ := List.getElem?_eq_some_iff.mp hr
  rw [getElem_map, getElem_range, KeyGroupRange.contains, decide_eq_true_iff, eq_comm,
    hvalid.assignedTask_eq_iff hg]
  rfl

theorem ownership_exact_three :
    ∃ ranges, allTaskRanges 8 3 = .ok ranges ∧ ranges.length = 3 ∧ Tile 0 (8 : ℕ) ranges := by
  obtain ⟨ranges, hranges, hlength, htile, -⟩ := ownership_exact (n := 8) (p := 3) rfl
  exact ⟨ranges, hranges, hlength, htile⟩

theorem Valid.keyGroup_lt {κ : Type} (h : Valid n p) (hash : κ → UInt32) (key : κ) :
    keyGroup hash key n < n := by
  have hn : 0 < n := h.parallel.trans_le h.enough
  have hlt := mod_lt (hash key).toNat hn
  rw [keyGroup, uint16, mod_eq_of_lt (lt_of_lt_of_le hlt (h.bound.trans (by decide)))]
  exact hlt

end Ranges

/-! ## Rescaling -/

section Rescaling

variable {n p : ℕ} {old r : KeyGroupRange} {olds news : List KeyGroupRange}

/-- What a range has in common with the ranges of a list, without what is empty. -/
def intersections (olds : List KeyGroupRange) (r : KeyGroupRange) : List KeyGroupRange :=
  olds.filterMap fun old =>
    if (r.inter old).start < (r.inter old).stop then some (r.inter old) else none

theorem intersections_cons (result : ℕ → List KeyGroupRange) (t : ℕ) :
    result t ++ intersections (old :: olds) r =
      addRange result t (r.inter old) t ++ intersections olds r := by
  rw [intersections, filterMap_cons, addRange]
  by_cases hlt : (r.inter old).start < (r.inter old).stop
  · rw [if_pos hlt, if_pos hlt, update_self, append_assoc]
    rfl
  · rw [if_neg hlt, if_neg hlt]
    rfl

theorem addRange_of_ne {result : ℕ → List KeyGroupRange} {t u : ℕ} (h : u ≠ t) :
    addRange result t r u = result u := by
  rw [addRange]
  split
  · exact update_of_ne h _ _
  · rfl

/-- An old range that ends before is not seen. -/
theorem intersections_cons_of_le (h : old.stop ≤ r.start) :
    intersections (old :: olds) r = intersections olds r := by
  have hempty : ¬ (r.inter old).start < (r.inter old).stop := by
    show ¬ max r.start old.start < min r.stop old.stop
    omega
  rw [intersections, filterMap_cons, if_neg hempty]
  rfl

/-- Old ranges that begin later are not seen. -/
theorem intersections_eq_nil (h : ∀ old ∈ olds, r.stop ≤ old.start) :
    intersections olds r = [] := by
  refine filterMap_eq_nil_iff.mpr fun old hold => if_neg ?_
  have hle := h old hold
  show ¬ max r.start old.start < min r.stop old.stop
  omega

/-- **The walk finds what a comparison of all pairs finds.** -/
theorem rescaleWalk_eq (newIdx : ℕ) (result : ℕ → List KeyGroupRange)
    (hold : olds.Pairwise fun x y => x.stop ≤ y.start)
    (hnew : news.Pairwise fun x y => x.stop ≤ y.start) :
    (∀ t < newIdx, rescaleWalk newIdx result olds news t = result t) ∧
    ∀ s, rescaleWalk newIdx result olds news (newIdx + s) =
      result (newIdx + s) ++ (news[s]?).elim [] (intersections olds) := by
  fun_induction rescaleWalk newIdx result olds news with
  | case1 newIdx result old olds new news ih =>
    obtain ⟨holds, hold'⟩ := pairwise_cons.mp hold
    obtain ⟨hnews, hnew'⟩ := pairwise_cons.mp hnew
    -- an old range that is passed has nothing in common with the new ranges that follow
    have hpassed : old.stop ≤ new.stop → ∀ s : ℕ, (news[s]?).elim [] (intersections olds) =
        (news[s]?).elim [] (intersections (old :: olds)) := by
      intro hle s
      cases hs : news[s]? with
      | none => rfl
      | some r =>
        exact (intersections_cons_of_le (hle.trans (hnews r (mem_of_getElem? hs)))).symm
    simp only [dite_eq_ite] at ih
    by_cases hn : new.stop ≤ old.stop
    · simp only [if_pos hn] at ih ⊢
      obtain ⟨hbefore, hafter⟩ := ih (by split <;> assumption) hnew'
      refine ⟨fun t ht => ?_, fun s => ?_⟩
      · rw [hbefore t (by omega), addRange_of_ne (by omega)]
      cases s with
      | zero =>
        have hrest : intersections olds new = [] :=
          intersections_eq_nil fun s hs => hn.trans (holds s hs)
        show _ = _ ++ intersections (old :: olds) new
        rw [intersections_cons, hrest, append_nil, add_zero]
        exact hbefore newIdx (lt_succ_self newIdx)
      | succ s =>
        rw [show newIdx + (s + 1) = newIdx + 1 + s by omega, hafter s, addRange_of_ne (by omega),
          getElem?_cons_succ]
        by_cases ho : old.stop ≤ new.stop
        · rw [if_pos ho, hpassed ho s]
        · rw [if_neg ho]
    · have ho : old.stop ≤ new.stop := by omega
      simp only [if_neg hn, if_pos ho] at ih ⊢
      obtain ⟨hbefore, hafter⟩ := ih hold' hnew
      refine ⟨fun t ht => ?_, fun s => ?_⟩
      · rw [hbefore t ht, addRange_of_ne (by omega)]
      rw [hafter s]
      cases s with
      | zero => exact (intersections_cons result newIdx).symm
      | succ s => rw [addRange_of_ne (by omega), getElem?_cons_succ, hpassed ho s]
  | case2 newIdx result olds news hne =>
    refine ⟨fun t _ => rfl, fun s => ?_⟩
    -- one of the lists is at its end
    cases olds with
    | nil => cases news[s]? <;> exact (append_nil _).symm
    | cons old olds =>
      cases news with
      | nil => exact (append_nil _).symm
      | cons new news => exact absurd rfl (hne old olds new news rfl)

theorem intersections_tile (h : Tile 0 n olds) (hr : r.start < r.stop) (hn : r.stop ≤ n) :
    Tile r.start r.stop (intersections olds r) := by
  let clip : ℤ → ℤ := fun k => max r.start (min k r.stop)
  have htile : Tile (clip 0) (clip n) (intersections olds r) := by
    refine h.filterMap (fun x y hle => ?_) (fun old _ hnone => ?_) fun old _ s hsome => ?_
    · show max _ _ ≤ max _ _
      omega
    · split at hnone
      · cases hnone
      · next hempty =>
        replace hempty : ¬ max r.start old.start < min r.stop old.stop := hempty
        show max _ _ ≤ max _ _
        omega
    · obtain ⟨hlt, rfl⟩ := Option.ite_some_none_eq_some.mp hsome
      replace hlt : max r.start old.start < min r.stop old.stop := hlt
      show ((max _ _ : ℕ) : ℤ) = max _ _ ∧ max _ _ < max _ _ ∧ ((min _ _ : ℕ) : ℤ) = max _ _
      omega
  have hstart : clip 0 = r.start := by
    show max _ _ = _
    omega
  have hstop : clip n = r.stop := by
    show max _ _ = _
    omega
  rwa [hstart, hstop] at htile

/-- **Rescaling.**  Each new subtask gets what its range has in common with the old ranges, in
order, and that tiles its range. -/
theorem rescaleMapping_eq {old new : ℕ} (hold : validate n old = .ok ())
    (hnew : validate n new = .ok ()) :
    ∃ olds news mapping, allTaskRanges n old = .ok olds ∧ allTaskRanges n new = .ok news ∧
      rescaleMapping n old new = .ok mapping ∧
      (∀ t r, news[t]? = some r →
        mapping t = intersections olds r ∧ Tile r.start r.stop (mapping t)) ∧
      ∀ t ≥ new, mapping t = [] := by
  have hsorted : ∀ {p : ℕ}, validate n p = .ok () →
      ((range p).map (ownRange n p)).Pairwise fun x y => x.stop ≤ y.start :=
    fun h => (valid_of_validate h).tile.pairwise.imp Int.ofNat_le.mp
  obtain ⟨-, hwalk⟩ := rescaleWalk_eq 0 (fun _ => []) (hsorted hold) (hsorted hnew)
  simp only [zero_add, nil_append] at hwalk
  refine ⟨_, _, rescaleWalk 0 (fun _ => []) ((range old).map (ownRange n old))
    ((range new).map (ownRange n new)), allTaskRanges_of_validate hold,
    allTaskRanges_of_validate hnew, ?_, fun t r hr => ?_, fun t ht => ?_⟩
  · rw [rescaleMapping, allTaskRanges_of_validate hold, allTaskRanges_of_validate hnew]
    rfl
  · have htile := (valid_of_validate hnew).tile
    have hmem := mem_of_getElem? hr
    rw [hwalk t, hr]
    exact ⟨rfl, intersections_tile (valid_of_validate hold).tile (Int.ofNat_lt.mp (htile.lt hmem))
      (Int.ofNat_le.mp (htile.bounds hmem).2)⟩
  · rw [hwalk t, getElem?_eq_none (by simpa using ht)]
    rfl

/-- The second of three new subtasks gets a part from each of the two old ones. -/
theorem rescaleMapping_two_three :
    ∃ mapping, rescaleMapping 8 2 3 = .ok mapping ∧
      mapping 1 = [⟨2, 4⟩, ⟨4, 5⟩] ∧ ∀ t ≥ 3, mapping t = [] := by
  have hold : validate (8 : ℕ) (2 : ℕ) = .ok () := rfl
  have hnew : validate (8 : ℕ) (3 : ℕ) = .ok () := rfl
  obtain ⟨olds, news, mapping, holds, hnews, hmapping, hparts, hother⟩ :=
    rescaleMapping_eq hold hnew
  cases holds
  cases hnews
  exact ⟨mapping, hmapping, (hparts 1 _ rfl).1, hother⟩

end Rescaling

end Wire.KeyGroup
