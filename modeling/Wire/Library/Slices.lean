import Mathlib

/-!
# Slices

A memory of arrays, and slices that begin at the start of an array.  Slices of one array share it,
so a write through one of them is seen by the others; to append to a slice writes into its array
while there is room, and into a new array with a copy otherwise.

`Has` says which elements a slice has, and that its array is at or above a bound.  `Keeps` says that
no array below the bound was written.  An operation on a slice above the bound keeps what is below
it: this is how a function that works on copies is seen to leave the originals alone. -/

namespace Slices

open List Function Nat

structure Slice where
  array : ℕ
  len : ℕ
deriving DecidableEq, Inhabited

structure Memory (α : Type) where
  /-- What is in each array, up to its capacity. -/
  arrays : ℕ → List α
  /-- The next array that is allocated. -/
  fresh : ℕ

variable {α σ : Type}

namespace Memory

variable (m : Memory α)

def read (s : Slice) : List α :=
  (m.arrays s.array).take s.len

def put (a : ℕ) (xs : List α) : Memory α :=
  { m with arrays := Function.update m.arrays a xs }

/-- `s[i] = x`. -/
def write (s : Slice) (i : ℕ) (x : α) : Memory α :=
  m.put s.array ((m.arrays s.array).set i x)

/-- A new array with these elements, and room for more. -/
def make (xs room : List α) : Memory α × Slice :=
  ({ m.put m.fresh (xs ++ room) with fresh := m.fresh + 1 }, ⟨m.fresh, xs.length⟩)

/-- `append(s, x)`; a new array has the room that the runtime gives it. -/
def append (grow : ℕ → List α) (s : Slice) (x : α) : Memory α × Slice :=
  if s.len < (m.arrays s.array).length then (m.write s s.len x, ⟨s.array, s.len + 1⟩)
  else m.make (m.read s ++ [x]) (grow s.len)

/-- The elements of a slice are replaced in place by as many others. -/
def fill (s : Slice) (xs : List α) : Memory α :=
  m.put s.array (xs ++ (m.arrays s.array).drop s.len)

/-- The loop `for _, x := range s`, from an index on, that folds some of the elements into a state
and appends the others to a slice. -/
def sweep (grow : ℕ → List α) (f : σ → α → Option σ) (s : Slice) :
    ℕ → ℕ → σ → Memory α × Slice → σ × Memory α × Slice
  | 0, _, st, r => (st, r)
  | k + 1, i, st, r =>
    match (r.1.arrays s.array)[i]? with
    | none => (st, r)
    | some x =>
      match f st x with
      | some st => sweep grow f s k (i + 1) st r
      | none => sweep grow f s k (i + 1) st (r.1.append grow r.2 x)

end Memory

/-- What the loop does to a list. -/
def sift (f : σ → α → Option σ) : σ → List α → σ × List α
  | st, [] => (st, [])
  | st, x :: xs =>
    match f st x with
    | some st => sift f st xs
    | none => ((sift f st xs).1, x :: (sift f st xs).2)

/-- No array below the bound was written. -/
structure Keeps (bound : ℕ) (m m' : Memory α) : Prop where
  fresh : m.fresh ≤ m'.fresh
  arrays : ∀ a < bound, m'.arrays a = m.arrays a

/-- The slice has these elements, in an array at or above the bound. -/
structure Has (bound : ℕ) (m : Memory α) (s : Slice) (xs : List α) : Prop where
  above : bound ≤ s.array
  allocated : s.array < m.fresh
  len : s.len = xs.length
  elements : ∃ room, m.arrays s.array = xs ++ room

variable {bound : ℕ} {m m' m'' : Memory α} {s : Slice} {xs : List α}

theorem Keeps.refl (bound : ℕ) (m : Memory α) : Keeps bound m m :=
  ⟨le_rfl, fun _ _ => rfl⟩

theorem Keeps.trans (h : Keeps bound m m') (h' : Keeps bound m' m'') : Keeps bound m m'' :=
  ⟨h.fresh.trans h'.fresh, fun a ha => (h'.arrays a ha).trans (h.arrays a ha)⟩

theorem keeps_put {a : ℕ} (ha : bound ≤ a) (xs : List α) : Keeps bound m (m.put a xs) :=
  ⟨le_rfl, fun _ hb => update_of_ne (hb.trans_le ha).ne _ _⟩

theorem Has.read (h : Has bound m s xs) : m.read s = xs := by
  obtain ⟨room, hroom⟩ := h.elements
  rw [Memory.read, hroom, h.len, take_left]

/-- A slice below the bound still has its elements. -/
theorem Has.keep (h : Has 0 m s xs) (hs : s.array < bound) (hkeep : Keeps bound m m') :
    Has 0 m' s xs where
  above := h.above
  allocated := h.allocated.trans_le hkeep.fresh
  len := h.len
  elements := by
    rw [hkeep.arrays _ hs]
    exact h.elements

theorem Has.lower (h : Has bound m s xs) : Has 0 m s xs :=
  { h with above := zero_le _ }

/-- The array of a slice is written. -/
theorem Has.put (h : Has bound m s xs) {ys : List α} {n : ℕ} (hn : n = ys.length)
    (room : List α) : Has bound (m.put s.array (ys ++ room)) ⟨s.array, n⟩ ys where
  above := h.above
  allocated := h.allocated
  len := hn
  elements := ⟨room, update_self ..⟩

theorem has_make (hbound : bound ≤ m.fresh) (xs room : List α) :
    Has bound (m.make xs room).1 (m.make xs room).2 xs ∧ Keeps bound m (m.make xs room).1 :=
  ⟨⟨hbound, lt_succ_self _, rfl, room, update_self ..⟩,
    le_succ _, fun _ ha => update_of_ne (ha.trans_le hbound).ne _ _⟩

section

variable (h : Has bound m s xs)
include h

theorem Has.write {i : ℕ} (hi : i < xs.length) (x : α) :
    Has bound (m.write s i x) s (xs.set i x) ∧ Keeps bound m (m.write s i x) := by
  obtain ⟨room, hroom⟩ := h.elements
  refine ⟨?_, keeps_put h.above _⟩
  rw [Memory.write, hroom, set_append_left _ _ hi]
  exact h.put (h.len.trans length_set.symm) room

theorem Has.fill {ys : List α} (hlen : ys.length = xs.length) :
    Has bound (m.fill s ys) s ys ∧ Keeps bound m (m.fill s ys) :=
  ⟨h.put (h.len.trans hlen.symm) _, keeps_put h.above _⟩

/-- To fill a slice with what it has changes nothing. -/
theorem Has.fill_self : m.fill s xs = m := by
  obtain ⟨room, hroom⟩ := h.elements
  rw [Memory.fill, hroom, h.len, drop_left, ← hroom, Memory.put, update_eq_self]

theorem Has.append (hbound : bound ≤ m.fresh) (grow : ℕ → List α) (x : α) :
    Has bound (m.append grow s x).1 (m.append grow s x).2 (xs ++ [x]) ∧
      Keeps bound m (m.append grow s x).1 := by
  rw [Memory.append]
  split
  · next hroom =>
    obtain ⟨room, harray⟩ := h.elements
    refine ⟨?_, keeps_put h.above _⟩
    cases room with
    | nil =>
      rw [harray, h.len, append_nil] at hroom
      exact absurd hroom (lt_irrefl _)
    | cons y room =>
      have hset : (m.arrays s.array).set s.len x = (xs ++ [x]) ++ room := by
        rw [harray, h.len, set_append_right _ _ le_rfl, Nat.sub_self, append_assoc]
        rfl
      rw [Memory.write, hset]
      exact h.put (by rw [h.len, length_append, length_singleton]) room
  · rw [h.read]
    exact has_make hbound _ _

/-- Appending one after the other. -/
theorem Has.foldl_append (hbound : bound ≤ m.fresh) (grow : ℕ → List α) (ys : List α) :
    let r := ys.foldl (fun r y => r.1.append grow r.2 y) (m, s)
    Has bound r.1 r.2 (xs ++ ys) ∧ Keeps bound m r.1 := by
  induction ys generalizing m s xs with
  | nil =>
    rw [append_nil]
    exact ⟨h, .refl bound m⟩
  | cons y ys ih =>
    obtain ⟨hhas, hkeeps⟩ := h.append hbound grow y
    obtain ⟨hlast, hrest⟩ := ih hhas (hbound.trans hkeeps.fresh)
    rw [append_assoc] at hlast
    exact ⟨hlast, hkeeps.trans hrest⟩

end

/-- The loop over a slice that appends to the slice itself, from its start: what is written is
always behind what is read.  The array has the elements that were appended, some that are no longer
of use, and those still to be read. -/
theorem sweep_spec (grow : ℕ → List α) (f : σ → α → Option σ) {a n : ℕ} (ha : bound ≤ a)
    {kept stale todo room : List α} {t : σ} (hm : a < m.fresh)
    (harray : m.arrays a = kept ++ stale ++ todo ++ room) :
    let r := Memory.sweep grow f ⟨a, n⟩ todo.length (kept ++ stale).length t (m, ⟨a, kept.length⟩)
    r.1 = (sift f t todo).1 ∧ Has bound r.2.1 r.2.2 (kept ++ (sift f t todo).2) ∧
      Keeps bound m r.2.1 := by
  induction todo generalizing m kept stale t with
  | nil =>
    refine ⟨rfl, ⟨ha, hm, ?_, stale ++ room, ?_⟩, .refl bound m⟩
    · rw [sift, append_nil]
      rfl
    · change m.arrays a = _
      rw [harray, sift]
      simp only [append_nil, append_assoc]
  | cons x todo ih =>
    have hx : (m.arrays a)[(kept ++ stale).length]? = some x := by
      rw [harray, append_assoc, getElem?_append_right le_rfl, Nat.sub_self]
      rfl
    cases hf : f t x with
    | some t' =>
      -- the element is folded into the state, and its place is no longer of use
      have harray' : m.arrays a = kept ++ (stale ++ [x]) ++ todo ++ room := by
        rw [harray]
        simp only [append_assoc, cons_append, nil_append]
      have hih := ih (t := t') hm harray'
      rw [← append_assoc, length_append, length_singleton] at hih
      simp only [length_cons, Memory.sweep, hx, hf, sift]
      exact hih
    | none =>
      -- the element is written over the first one that is no longer of use, or over itself
      have happend : m.append grow ⟨a, kept.length⟩ x =
          (m.put a ((kept ++ [x]) ++ (stale ++ [x]).tail ++ todo ++ room),
            ⟨a, kept.length + 1⟩) := by
        have hroom : kept.length < (m.arrays a).length := by
          rw [harray]
          simp only [length_append, length_cons]
          omega
        have hset : (m.arrays a).set kept.length x =
            (kept ++ [x]) ++ (stale ++ [x]).tail ++ todo ++ room := by
          rw [harray, append_assoc, append_assoc, set_append_right _ _ le_rfl, Nat.sub_self]
          cases stale with
          | nil | cons => simp
        rw [Memory.append, if_pos hroom, Memory.write, hset]
      have harray' : (m.put a ((kept ++ [x]) ++ (stale ++ [x]).tail ++ todo ++ room)).arrays a =
          (kept ++ [x]) ++ (stale ++ [x]).tail ++ todo ++ room := update_self ..
      have hlength : ((kept ++ [x]) ++ (stale ++ [x]).tail).length =
          (kept ++ stale).length + 1 := by
        simp only [length_append, length_tail, length_singleton]
        omega
      have hkept : (kept ++ [x]).length = kept.length + 1 := by
        rw [length_append, length_singleton]
      obtain ⟨hst, hhas, hkeeps⟩ := ih (t := t) (by exact hm) harray'
      rw [hlength, hkept] at hst hhas hkeeps
      simp only [length_cons, Memory.sweep, hx, hf, sift, happend]
      refine ⟨hst, ?_, (keeps_put ha _).trans hkeeps⟩
      rw [append_cons kept x (sift f t todo).2]
      exact hhas

/-- The loop over a slice, from its start. -/
theorem Has.sweep (h : Has bound m s xs) (grow : ℕ → List α) (f : σ → α → Option σ) (t : σ) :
    let r := Memory.sweep grow f s s.len 0 t (m, ⟨s.array, 0⟩)
    r.1 = (sift f t xs).1 ∧ Has bound r.2.1 r.2.2 (sift f t xs).2 ∧ Keeps bound m r.2.1 := by
  obtain ⟨room, hroom⟩ := h.elements
  have harray : m.arrays s.array = [] ++ [] ++ xs ++ room := hroom
  rw [h.len]
  exact sweep_spec grow f h.above h.allocated harray

end Slices
