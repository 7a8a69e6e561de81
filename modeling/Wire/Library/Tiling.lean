import Wire.Library.Guard

/-!
# Intervals that follow one another

A loop that goes over intervals and asks of each that it begins where the one before has ended
accepts a list exactly if the intervals tile a longer one.  Every point of a tiled interval is then
in one of them, and in no other.

The intervals are half-open.  Both ends are functions of what the list holds, so that the lists of a
program can be used as they are.
-/

namespace Tiling

open List

variable {α : Type} {start stop : α → ℤ}

/-- The intervals from `start x` to `stop x`, none of them empty, lead from `a` to `b`. -/
inductive Tiles (start stop : α → ℤ) : ℤ → ℤ → List α → Prop where
  | nil (a : ℤ) : Tiles start stop a a []
  | cons {a b : ℤ} {x : α} {l : List α} :
      start x = a → a < stop x → Tiles start stop (stop x) b l → Tiles start stop a b (x :: l)

variable {a b k : ℤ} {x y : α} {l : List α}

theorem Tiles.eq_of_nil (h : Tiles start stop a b []) : a = b := by
  cases h
  rfl

section

variable (h : Tiles start stop a b l)
include h

theorem Tiles.le : a ≤ b := by
  induction h with
  | nil a => exact le_rfl
  | cons hstart hlt _ ih => omega

theorem Tiles.bounds (hx : x ∈ l) : a ≤ start x ∧ stop x ≤ b := by
  induction h with
  | nil a => exact absurd hx not_mem_nil
  | cons hstart hlt htail ih =>
    rcases mem_cons.mp hx with rfl | hx
    · exact ⟨hstart.ge, htail.le⟩
    · have := ih hx
      omega

theorem Tiles.lt (hx : x ∈ l) : start x < stop x := by
  induction h with
  | nil a => exact absurd hx not_mem_nil
  | cons hstart hlt _ ih =>
    rcases mem_cons.mp hx with rfl | hx
    · rwa [hstart]
    · exact ih hx

/-- Every point is in one of the intervals. -/
theorem Tiles.exists_mem (hle : a ≤ k) (hlt : k < b) : ∃ x ∈ l, start x ≤ k ∧ k < stop x := by
  induction h with
  | nil a => omega
  | @cons a b y l hstart hne htail ih =>
    by_cases hk : k < stop y
    · exact ⟨y, mem_cons_self, by omega, hk⟩
    · obtain ⟨x, hx, hin⟩ := ih (by omega) hlt
      exact ⟨x, mem_cons_of_mem y hx, hin⟩

/-- No point is in two of them. -/
theorem Tiles.unique (hx : x ∈ l) (hy : y ∈ l) (hkx : start x ≤ k ∧ k < stop x)
    (hky : start y ≤ k ∧ k < stop y) : x = y := by
  induction h with
  | nil a => exact absurd hx not_mem_nil
  | cons hstart hlt htail ih =>
    rcases mem_cons.mp hx with hx | hx <;> rcases mem_cons.mp hy with hy | hy
    · rw [hx, hy]
    · have := htail.bounds hy
      subst hx
      omega
    · have := htail.bounds hx
      subst hy
      omega
    · exact ih hx hy

theorem Tiles.concat (hstart : start x = b) (hlt : b < stop x) :
    Tiles start stop a (stop x) (l ++ [x]) := by
  induction h with
  | nil a => exact .cons hstart hlt (.nil _)
  | cons hstart' hlt' _ ih => exact .cons hstart' hlt' (ih hstart hlt)

/-- The intervals stand in order. -/
theorem Tiles.pairwise : l.Pairwise fun x y => stop x ≤ start y := by
  induction h with
  | nil a => exact .nil
  | cons _ _ htail ih => exact .cons (fun y hy => (htail.bounds hy).1) ih

/-- A map of the points that keeps their order takes a tiling to a tiling, without the intervals of
which nothing is left. -/
theorem Tiles.filterMap {β : Type} {start' stop' : β → ℤ} {clip : ℤ → ℤ} (hclip : Monotone clip)
    {f : α → Option β} (hnone : ∀ x ∈ l, f x = none → clip (stop x) ≤ clip (start x))
    (hsome : ∀ x ∈ l, ∀ y, f x = some y →
      start' y = clip (start x) ∧ clip (start x) < clip (stop x) ∧ stop' y = clip (stop x)) :
    Tiles start' stop' (clip a) (clip b) (l.filterMap f) := by
  induction h with
  | nil a => exact .nil _
  | @cons a b x l hstart hlt _ ih =>
    have hrest := ih (fun y hy => hnone y (mem_cons_of_mem x hy))
      fun y hy => hsome y (mem_cons_of_mem x hy)
    cases hf : f x with
    | none =>
      have hsame : clip (stop x) = clip a :=
        le_antisymm (hstart ▸ hnone x mem_cons_self hf) (hclip hlt.le)
      rw [filterMap_cons_none hf, ← hsame]
      exact hrest
    | some y =>
      obtain ⟨hfirst, hne, hlast⟩ := hsome x mem_cons_self y hf
      rw [filterMap_cons_some hf]
      rw [← hlast] at hne hrest
      exact .cons (hstart ▸ hfirst) (hstart ▸ hne) hrest

end

/-- Every element of a list that a loop has gone over had its step. -/
theorem exists_step_of_foldlM {ε σ : Type} {f : σ → α → Except ε σ} {s s' : σ}
    (h : l.foldlM f s = .ok s') (hx : x ∈ l) : ∃ t t', f t x = .ok t' := by
  induction l generalizing s with
  | nil => exact absurd hx not_mem_nil
  | cons y l ih =>
    rw [foldlM_cons, Guard.bind_eq_ok] at h
    obtain ⟨t, hy, hl⟩ := h
    rcases mem_cons.mp hx with rfl | hx
    · exact ⟨s, t, hy⟩
    · exact ih hl hx

/-- **The loop.**  It is enough that the intervals are not empty, whoever checks that. -/
theorem tiles_of_foldlM {ε : Type} {f : ℤ → α → Except ε ℤ}
    (hf : ∀ next x next', f next x = .ok next' → start x = next ∧ next' = stop x)
    (hne : ∀ x ∈ l, start x < stop x) (h : l.foldlM f a = .ok b) : Tiles start stop a b l := by
  induction l generalizing a with
  | nil =>
    rw [foldlM_nil, Guard.pure_eq_ok] at h
    exact h ▸ .nil a
  | cons x l ih =>
    rw [foldlM_cons, Guard.bind_eq_ok] at h
    obtain ⟨next, hx, hl⟩ := h
    obtain ⟨hstart, rfl⟩ := hf a x next hx
    have hlt := hne x mem_cons_self
    exact .cons hstart (hstart ▸ hlt) (ih (fun y hy => hne y (mem_cons_of_mem x hy)) hl)

end Tiling
