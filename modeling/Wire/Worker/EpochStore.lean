import Wire.Library.BigEndian

/-!
# The worker's epoch file

The highest coordinator epoch that a worker has accepted is kept in a file of eight bytes, so that
a restarted worker refuses the coordinators that its predecessor had left behind.  The file is
never written in place: `save` writes and syncs a temporary file, renames it over the record and
syncs the directory, and each of the three can fail, or the process end before it.  The rename is
the instant at which the record changes.
-/

namespace Wire.Worker

open BigEndian

/-- `binary.BigEndian.PutUint64`. -/
def putUint64 (v : ℕ) : List UInt8 := encode 8 v

/-- `binary.BigEndian.Uint64`, of eight bytes. -/
def uint64 (data : List UInt8) : ℕ := decode data

/-- `math.MaxUint64`. -/
def maxUint64 : ℕ := 2 ^ 64 - 1

/-- What stands at the epoch path, if anything. -/
abbrev EpochFile := Option (List UInt8)

/-- The epoch store of a process, which owns the file by a lock. -/
structure EpochStore where
  epoch : ℕ := 0
deriving DecidableEq

/-- `openEpochStore`; an invalid record is an error. -/
def openEpochStore : EpochFile → Option EpochStore
  | none => some {}
  | some data => if data.length ≠ 8 then none else some { epoch := uint64 data }

/-- What `save` has still to do. -/
inductive SaveStage where
  | writeTemp | rename | syncDir
deriving DecidableEq

/-- How `save` begins. -/
inductive SaveStart where
  /-- `refusing stale epoch` -/
  | refused
  | unchanged
  | writing
deriving DecidableEq

/-- `epochStore.save`, up to its first write. -/
def EpochStore.save (s : EpochStore) (epoch : ℕ) : SaveStart :=
  if epoch < s.epoch then .refused
  else if epoch = s.epoch then .unchanged
  else .writing

theorem EpochStore.epoch_of_unchanged {s : EpochStore} {epoch : ℕ}
    (h : s.save epoch = .unchanged) : epoch = s.epoch := by
  rw [EpochStore.save] at h
  split at h
  · cases h
  split at h
  · next heq => exact heq
  · cases h

/-- Only a higher epoch is written. -/
theorem EpochStore.lt_of_writing {s : EpochStore} {epoch : ℕ} (h : s.save epoch = .writing) :
    s.epoch < epoch := by
  rw [EpochStore.save] at h
  split at h
  · cases h
  split at h
  · cases h
  · omega

/-- **A saved epoch is read back.** -/
theorem openEpochStore_putUint64 {v : ℕ} (h : v ≤ maxUint64) :
    openEpochStore (some (putUint64 v)) = some ⟨v⟩ := by
  have hfits : v < 256 ^ 8 := Nat.lt_of_le_of_lt h (by decide)
  have hlength : ¬ (putUint64 v).length ≠ 8 := fun hne => hne (length_encode 8 v)
  rw [openEpochStore, if_neg hlength, uint64, putUint64, decode_encode hfits]

end Wire.Worker
