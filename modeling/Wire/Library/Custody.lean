import Mathlib

/-!
# Custody of items

What a queue, a mailbox or a relay is for, whatever it is made of: items come into its custody, are
kept for a while, and are handed over.  `Custody` has the three collections with their
multiplicities, and `Conserved` says that each item that came in was handed over once or is still
kept.

## What is proved

A `Move` takes items in, hands some over, and loses some.  `Move.conserved_iff` is the account of
one move: what was conserved stays so exactly when nothing is lost in it.  An implementation is
connected to its custody by showing that each of its steps is a move and which items the step
loses.  Whatever is lost, nothing comes from nowhere (`Move.covered`).  What it keeps is usually
spread over many holders; `total` is what they keep together, and `total_add` the change of one of
them. -/

variable {α : Type*}

/-- The items that came in, those handed over, and those still kept. -/
structure Custody (α : Type*) where
  entered : Multiset α
  handed : Multiset α
  kept : Multiset α

namespace Custody

variable {c c' : Custody α} {lost : Multiset α}

/-- Each item was handed over once, or is still kept. -/
def Conserved (c : Custody α) : Prop := c.entered = c.handed + c.kept

/-- Items are taken in and handed over, and some are lost. -/
inductive Move (c c' : Custody α) (lost : Multiset α) : Prop where
  | intro (taken given : Multiset α) (hentered : c'.entered = c.entered + taken)
      (hhanded : c'.handed = c.handed + given) (hkept : c.kept + taken = c'.kept + given + lost)

/-- Nothing but a rearrangement. -/
theorem Move.rearranged (hentered : c'.entered = c.entered) (hhanded : c'.handed = c.handed)
    (hkept : c'.kept = c.kept) : Move c c' 0 :=
  .intro 0 0 (by rw [hentered, add_zero]) (by rw [hhanded, add_zero])
    (by rw [hkept, add_zero, add_zero])

theorem Move.account (h : Move c c' lost) (hc : c.Conserved) :
    c'.entered = c'.handed + c'.kept + lost := by
  obtain ⟨taken, given, hentered, hhanded, hkept⟩ := h
  calc c'.entered = c.handed + (c.kept + taken) := by rw [hentered, hc, add_assoc]
    _ = c.handed + (given + (c'.kept + lost)) := by rw [hkept, add_comm c'.kept, add_assoc]
    _ = c'.handed + c'.kept + lost := by rw [hhanded, ← add_assoc, ← add_assoc, add_assoc]

/-- **The account of a move.** -/
theorem Move.conserved_iff (h : Move c c' lost) (hc : c.Conserved) : c'.Conserved ↔ lost = 0 := by
  rw [Conserved, h.account hc]
  exact add_eq_left

/-- What was handed over and what is kept came in. -/
def Covered (c : Custody α) : Prop := c.handed + c.kept ≤ c.entered

theorem Move.covered (h : Move c c' lost) (hc : c.Covered) : c'.Covered := by
  obtain ⟨taken, given, hentered, hhanded, hkept⟩ := h
  calc c'.handed + c'.kept = c.handed + (c'.kept + given) := by
        rw [hhanded, add_assoc, add_comm given]
    _ ≤ c.handed + (c'.kept + given + lost) :=
        Multiset.add_le_add_left (Multiset.le_add_right _ _)
    _ = c.handed + c.kept + taken := by rw [← hkept, add_assoc]
    _ ≤ c.entered + taken := Multiset.add_le_add_right hc
    _ = c'.entered := hentered.symm

end Custody

/-! ## Many holders -/

namespace Custody

variable {f f' : ℕ → Multiset α} {i n : ℕ}

/-- What the first `n` holders keep together. -/
def total (f : ℕ → Multiset α) (n : ℕ) : Multiset α := ∑ k ∈ Finset.range n, f k

theorem total_succ (f : ℕ → Multiset α) (n : ℕ) : total f (n + 1) = total f n + f n :=
  Finset.sum_range_succ f n

theorem total_congr (h : ∀ k < n, f' k = f k) : total f' n = total f n :=
  Finset.sum_congr rfl fun k hk => h k (Finset.mem_range.mp hk)

/-- One holder takes something in. -/
theorem total_add {m : Multiset α} (hi : i < n) (h : ∀ k, k ≠ i → f' k = f k)
    (hadd : f' i = f i + m) : total f' n = total f n + m := by
  have hmem : i ∈ Finset.range n := Finset.mem_range.mpr hi
  have hrest : ∑ k ∈ (Finset.range n).erase i, f' k = ∑ k ∈ (Finset.range n).erase i, f k :=
    Finset.sum_congr rfl fun k hk => h k (Finset.ne_of_mem_erase hk)
  rw [total, total, ← Finset.add_sum_erase _ f hmem, ← Finset.add_sum_erase _ f' hmem, hrest, hadd]
  exact add_right_comm _ _ _

end Custody
