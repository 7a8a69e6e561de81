import Mathlib

/-!
# Finite tables

Two kinds of finite map.

A `Table key` is a list of records, each of which knows the key it is stored under: the
records of a table have pairwise different keys, so the table is a partial function from keys
to records that can be scanned.  The difference from a general map is that a record found
under a key *has* that key (`Table.key_of_lookup`), which nobody then has to prove again.

The second half is about the association lists of Mathlib, for the case where the values do
not carry their keys: `AList.lookup_isSome_of_size_eq` is the counting argument "as many
entries as there are expected keys, and only expected keys, so all of them".
-/

/-- Records with pairwise different keys. -/
structure Table {κ ν : Type*} (key : ν → κ) where
  records : List ν
  nodup : (records.map key).Nodup

namespace Table

open List

variable {κ ν : Type*} [DecidableEq κ] {key : ν → κ}

instance : EmptyCollection (Table key) := ⟨⟨[], nodup_nil⟩⟩

/-- The record stored under a key. -/
def lookup (t : Table key) (k : κ) : Option ν :=
  t.records.find? fun v => key v = k

/-- Store a record, replacing the one under its key. -/
def put (t : Table key) (v : ν) : Table key where
  records := v :: t.records.filter fun w => key w ≠ key v
  nodup := by
    rw [map_cons, nodup_cons]
    refine ⟨?_, (t.nodup.sublist (filter_sublist.map key))⟩
    intro h
    obtain ⟨w, hw, heq⟩ := mem_map.mp h
    simp [heq] at hw

/-- Remove the record under a key. -/
def delete (t : Table key) (k : κ) : Table key where
  records := t.records.filter fun w => key w ≠ k
  nodup := t.nodup.sublist (filter_sublist.map key)

variable {k : κ} {t : Table key} {v : ν}

/-- A record has the key it is found under. -/
theorem key_of_lookup (h : t.lookup k = some v) : key v = k := by
  simpa using find?_some h

/-- **Scanning and looking up see the same records.** -/
theorem mem_records_iff : v ∈ t.records ↔ t.lookup (key v) = some v := by
  constructor
  · intro hv
    obtain ⟨w, hw⟩ : ∃ w, t.lookup (key v) = some w := by
      rw [← Option.isSome_iff_exists, lookup, find?_isSome]
      exact ⟨v, hv, by simp⟩
    rw [hw, inj_on_of_nodup_map t.nodup hv (mem_of_find?_eq_some hw) (key_of_lookup hw).symm]
  · exact mem_of_find?_eq_some

theorem mem_records_of_lookup (h : t.lookup k = some v) : v ∈ t.records :=
  mem_of_find?_eq_some h

@[simp] theorem mem_records_put {w : ν} :
    w ∈ (t.put v).records ↔ w = v ∨ w ∈ t.records ∧ key w ≠ key v := by
  simp [put]

@[simp] theorem lookup_put_self (t : Table key) (v : ν) : (t.put v).lookup (key v) = some v := by
  simp [lookup, put]

theorem lookup_delete_of_ne (t : Table key) {k' : κ} (h : k ≠ k') :
    (t.delete k').lookup k = t.lookup k := by
  rw [lookup, delete, find?_filter, lookup]
  congr 1
  funext w
  rcases eq_or_ne (key w) k with rfl | hw
  · simp [h]
  · simp [hw]

theorem lookup_put_of_ne (t : Table key) (h : k ≠ key v) : (t.put v).lookup k = t.lookup k := by
  rw [lookup, put, find?_cons_of_neg (by simpa using h.symm)]
  exact lookup_delete_of_ne t h

/-- What a put leaves under a key, as one equation. -/
theorem lookup_put (t : Table key) (v : ν) (k : κ) :
    (t.put v).lookup k = if k = key v then some v else t.lookup k := by
  split
  · next h => rw [h, lookup_put_self]
  · next h => exact lookup_put_of_ne t h

end Table

/-! ## Association lists -/

namespace AList

variable {κ ν : Type*} [DecidableEq κ]

variable {k : κ} {m : AList fun _ : κ => ν}

/-- A map whose keys are all expected and which has as many entries as there are expected
keys has an entry for each of them. -/
theorem lookup_isSome_of_size_eq {ω : Type*}
    {expected : AList fun _ : κ => ω} (hsub : ∀ k, k ∈ m → k ∈ expected)
    (hsize : m.entries.length = expected.entries.length) (hk : k ∈ expected) :
    (m.lookup k).isSome := by
  rw [lookup_isSome]
  have hperm : expected.keys ⊆ m.keys := by
    refine (List.Subperm.perm_of_length_le
      (List.subperm_of_subset m.keys_nodup hsub) ?_).symm.subset
    simp only [keys, List.keys, List.length_map]
    exact hsize.ge
  exact hperm hk

/-- The entries of a map are one of them and the others. -/
theorem perm_cons_erase {v : ν} (h : m.lookup k = some v) :
    m.entries.Perm (⟨k, v⟩ :: (m.erase k).entries) := by
  have hmem : (⟨k, v⟩ : Sigma fun _ : κ => ν) ∈ m.entries := mem_lookup_iff.mp h
  obtain ⟨v', l₁, l₂, hl₁, hentries, hkerase⟩ :=
    List.exists_of_kerase (List.mem_keys_of_mem hmem)
  have hlookup : m.lookup k = some v' := by
    refine mem_lookup_iff.mpr ?_
    rw [hentries]
    exact List.mem_append_right _ List.mem_cons_self
  cases h.symm.trans hlookup
  change m.entries.Perm (⟨k, v⟩ :: m.entries.kerase k)
  rw [hkerase, hentries]
  exact List.perm_middle

end AList
