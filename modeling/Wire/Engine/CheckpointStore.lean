import Wire.Library.Runs

/-!
# The store of task checkpoints

`FileCheckpointStore` publishes a snapshot with a hard link: the temporary file is written and
synced, linked to the name of its identity, and removed, and then the directory is synced.  The link
fails if the name exists; the file there is read back and compared.  `ImportArchive` does the same
for the typed record, and then once more for the bytes of the archive.

A file is visible from the link on, and durable from the next sync of the directory on, by whichever
caller.  A crash stops all callers, and of the links that were not synced some are lost.  What is
linked is never written again, so a visible file is complete.

So what is visible need not stay: a snapshot that was read before its publisher had synced the
directory can be lost and another one take its place (`two_payloads_visible`).  But what a call has
reported stays for ever (`stored_once`).

The digests are left out: a file that was not damaged passes its check, and two archives with one
digest are the same.  JSON replaces what is not UTF-8 in a string (`roundTrip`), also in the name of
a file, so identities may share one.
-/

namespace Wire.Engine.CheckpointStore

open Function Option List Runs

/-- The identity of a stored checkpoint. -/
structure Identity where
  jobID : ℕ
  taskID : ℕ
  id : ℕ
  epoch : ℕ
deriving DecidableEq

/-- `TaskCheckpoint`; `body` is all that is not part of its identity. -/
structure TaskCheckpoint where
  taskID : ℕ
  checkpointID : ℕ
  epochID : ℕ
  body : ℕ
deriving DecidableEq

structure Config where
  /-- What becomes of a string in JSON. -/
  roundTrip : ℕ → ℕ
  /-- `path`; an invalid identity has none. -/
  path : Identity → Option ℕ

/-- `json.Marshal`, as the value that is read back. -/
def Config.marshal (cfg : Config) (snapshot : TaskCheckpoint) : TaskCheckpoint :=
  { snapshot with taskID := cfg.roundTrip snapshot.taskID }

/-- The files of the directory, without the temporary ones. -/
structure Directory where
  records : ℕ → Option TaskCheckpoint := fun _ => none
  archives : ℕ → Option ℕ := fun _ => none

/-- What a call publishes. -/
structure Job where
  identity : Identity
  path : ℕ
  payload : TaskCheckpoint
  /-- The bytes that `ImportArchive` retains. -/
  archive : Option ℕ

/-- Where `Put` is, and then `ImportArchive`. -/
inductive Stage where
  /-- The temporary file is written. -/
  | staging
  | synced
  /-- The name of the link exists. -/
  | occupied
  | linked
  | removed
  | archiveStaging
  | archiveSynced
  | archiveOccupied
  | archiveLinked
  | archiveRemoved

inductive Caller where
  | idle
  /-- `importArchive` reads the archive. -/
  | importing (identity : Identity) (path archive : ℕ)
  | running (stage : Stage) (job : Job)

structure State where
  directory : Directory := {}
  durable : Directory := {}
  callers : ℕ → Caller := fun _ => .idle
  /-- The calls that have returned no error; it is not read by any function. -/
  succeeded : List (Identity × TaskCheckpoint) := []

inductive Action where
  | put (caller jobID : ℕ) (snapshot : TaskCheckpoint)
  | importArchive (caller : ℕ) (identity : Identity) (archive : ℕ)
  /-- The archive has been read and its artifacts are imported; the handles are relocated. -/
  | unpacked (caller : ℕ) (snapshot : TaskCheckpoint)
  /-- The next call of the system that a caller makes succeeds. -/
  | next (caller : ℕ)
  /-- A caller returns an error. -/
  | fail (caller : ℕ)
  /-- The links for which a function is false are lost unless they are durable. -/
  | crash (records archives : ℕ → Bool)

namespace State

variable (cfg : Config) (s : State)

def setCaller (i : ℕ) (caller : Caller) : State :=
  { s with callers := update s.callers i caller }

/-- `os.Link` to the name of the record. -/
def link (i : ℕ) (job : Job) : State :=
  match s.directory.records job.path with
  | none =>
    { s.setCaller i (.running .linked job) with directory := { s.directory with
        records := update s.directory.records job.path (some job.payload) } }
  | some _ => s.setCaller i (.running .occupied job)

/-- `read` and the comparison; another payload is `ErrCheckpointConflict`. -/
def compare (i : ℕ) (job : Job) : State :=
  if s.directory.records job.path = some job.payload then s.setCaller i (.running .linked job)
  else s.setCaller i .idle

/-- `os.Link` to the name of the archive. -/
def linkArchive (i : ℕ) (job : Job) (archive : ℕ) : State :=
  match s.directory.archives job.path with
  | none =>
    { s.setCaller i (.running .archiveLinked job) with directory := { s.directory with
        archives := update s.directory.archives job.path (some archive) } }
  | some _ => s.setCaller i (.running .archiveOccupied job)

def compareArchive (i : ℕ) (job : Job) (archive : ℕ) : State :=
  if s.directory.archives job.path = some archive then
    s.setCaller i (.running .archiveLinked job)
  else s.setCaller i .idle

/-- `dir.Sync`. -/
def syncDir : State :=
  { s with durable := s.directory }

/-- A call returns no error. -/
def succeed (i : ℕ) (job : Job) : State :=
  { s.setCaller i .idle with succeeded := s.succeeded ++ [(job.identity, job.payload)] }

/-- The next call of the system that a caller makes. -/
def next (i : ℕ) : Option State :=
  match s.callers i with
  | .idle | .importing _ _ _ => none
  | .running stage job =>
    match stage, job.archive with
    | .staging, _ => some (s.setCaller i (.running .synced job))
    | .synced, _ => some (s.link i job)
    | .occupied, _ => some (s.compare i job)
    | .linked, _ => some (s.setCaller i (.running .removed job))
    | .removed, none => some (s.syncDir.succeed i job)
    | .removed, some _ => some (s.syncDir.setCaller i (.running .archiveStaging job))
    | .archiveStaging, _ => some (s.setCaller i (.running .archiveSynced job))
    | .archiveSynced, some archive => some (s.linkArchive i job archive)
    | .archiveOccupied, some archive => some (s.compareArchive i job archive)
    | .archiveLinked, _ => some (s.setCaller i (.running .archiveRemoved job))
    | .archiveRemoved, _ => some (s.syncDir.succeed i job)
    | .archiveSynced, none | .archiveOccupied, none => none

/-- Some of the links that are not durable are lost. -/
def crash (records archives : ℕ → Bool) : State :=
  let left : Directory := {
    records := fun path => if records path then s.directory.records path else s.durable.records path
    archives := fun path =>
      if archives path then s.directory.archives path else s.durable.archives path }
  { s with directory := left, durable := left, callers := fun _ => .idle }

end State

/-- The identity under which `Put` stores a snapshot. -/
def TaskCheckpoint.identity (snapshot : TaskCheckpoint) (jobID : ℕ) : Identity :=
  ⟨jobID, snapshot.taskID, snapshot.checkpointID, snapshot.epochID⟩

def step (cfg : Config) (s : State) : Action → Option State
  | .put i jobID snapshot =>
    match s.callers i, cfg.path (snapshot.identity jobID) with
    | .idle, some path => some (s.setCaller i (.running .staging
        { identity := snapshot.identity jobID, path, payload := cfg.marshal snapshot
          archive := none }))
    | _, _ => none
  | .importArchive i identity archive =>
    match s.callers i, cfg.path identity with
    | .idle, some path => some (s.setCaller i (.importing identity path archive))
    | _, _ => none
  | .unpacked i snapshot =>
    match s.callers i with
    | .importing identity path archive =>
      if snapshot.identity identity.jobID = identity then
        some (s.setCaller i (.running .staging
          { identity, path, payload := cfg.marshal snapshot, archive := some archive }))
      else some (s.setCaller i .idle)
    | _ => none
  | .next i => s.next i
  | .fail i => some (s.setCaller i .idle)
  | .crash records archives => some (s.crash records archives)

abbrev Reachable (cfg : Config) : State → Prop := Runs.Reachable (step cfg) {}

inductive GetError where
  | invalidIdentity | notExist | corrupt
deriving DecidableEq

/-- `Get`, when no call of the system fails. -/
def get (cfg : Config) (s : State) (identity : Identity) : Except GetError TaskCheckpoint :=
  match cfg.path identity with
  | none => .error .invalidIdentity
  | some path =>
    match s.directory.records path with
    | none => .error .notExist
    | some payload =>
      if payload.identity identity.jobID = identity then .ok payload else .error .corrupt

/-- The payload is visible under the identity. -/
def Visible (cfg : Config) (s : State) (identity : Identity) (payload : TaskCheckpoint) : Prop :=
  ∃ path, cfg.path identity = some path ∧ s.directory.records path = some payload

/-! ## What is linked stays -/

/-- The files of one directory are files of another. -/
structure Directory.Le (d d' : Directory) : Prop where
  records : ∀ path p, d.records path = some p → d'.records path = some p
  archives : ∀ path a, d.archives path = some a → d'.archives path = some a

/-- No file is lost or replaced. -/
structure Grows (s s' : State) : Prop where
  directory : s.directory.Le s'.directory
  durable : s.durable.Le s'.durable

section Grows

variable {cfg : Config} {s s' s'' : State} {d d' d'' : Directory}

theorem Directory.Le.refl (d : Directory) : d.Le d :=
  ⟨fun _ _ h => h, fun _ _ h => h⟩

theorem Directory.Le.trans (h : d.Le d') (h' : d'.Le d'') : d.Le d'' :=
  ⟨fun path p hp => h'.records path p (h.records path p hp),
    fun path a ha => h'.archives path a (h.archives path a ha)⟩

theorem Grows.of_eq (hdirectory : s'.directory = s.directory) (hdurable : s'.durable = s.durable) :
    Grows s s' :=
  ⟨hdirectory ▸ .refl _, hdurable ▸ .refl _⟩

theorem Grows.trans (h : Grows s s') (h' : Grows s' s'') : Grows s s'' :=
  ⟨h.directory.trans h'.directory, h.durable.trans h'.durable⟩

theorem Directory.le_linkRecord {path : ℕ} (hfree : d.records path = none) (p : TaskCheckpoint) :
    d.Le { d with records := update d.records path (some p) } := by
  refine ⟨fun path' p' hp' => ?_, fun _ _ h => h⟩
  have hne : path' ≠ path := by
    rintro rfl
    rw [hfree] at hp'
    cases hp'
  dsimp only
  rw [update_of_ne hne]
  exact hp'

theorem Directory.le_linkArchive {path : ℕ} (hfree : d.archives path = none) (a : ℕ) :
    d.Le { d with archives := update d.archives path (some a) } := by
  refine ⟨fun _ _ h => h, fun path' a' ha' => ?_⟩
  have hne : path' ≠ path := by
    rintro rfl
    rw [hfree] at ha'
    cases ha'
  dsimp only
  rw [update_of_ne hne]
  exact ha'

end Grows

/-! ## The invariant -/

/-- The payload has the identity, up to what JSON makes of the task. -/
def Identifies (cfg : Config) (identity : Identity) (payload : TaskCheckpoint) : Prop :=
  payload.identity identity.jobID = { identity with taskID := cfg.roundTrip identity.taskID }

/-- The record has been linked, by this call or by another. -/
def Stage.placed : Stage → Bool
  | .linked | .removed => true
  | _ => false

/-- `Put` has returned no error to `ImportArchive`. -/
def Stage.stored : Stage → Bool
  | .archiveStaging | .archiveSynced | .archiveOccupied | .archiveLinked | .archiveRemoved => true
  | _ => false

def Stage.archived : Stage → Bool
  | .archiveLinked | .archiveRemoved => true
  | _ => false

/-- What holds of a call on its way. -/
structure JobInv (cfg : Config) (s : State) (stage : Stage) (job : Job) : Prop where
  path : cfg.path job.identity = some job.path
  payload : Identifies cfg job.identity job.payload
  placed : stage.placed = true → s.directory.records job.path = some job.payload
  stored : stage.stored = true → s.durable.records job.path = some job.payload
  archived : stage.archived = true →
    ∃ a, job.archive = some a ∧ s.directory.archives job.path = some a
  retains : stage.stored = true → job.archive.isSome = true

def CallerInv (cfg : Config) (s : State) : Caller → Prop
  | .idle => True
  | .importing identity path _ => cfg.path identity = some path
  | .running stage job => JobInv cfg s stage job

/-- An archive is retained only for a record that is durable, and so is what was reported. -/
structure Inv (cfg : Config) (s : State) : Prop where
  durable : s.durable.Le s.directory
  callers : ∀ i, CallerInv cfg s (s.callers i)
  archives : ∀ path a, s.directory.archives path = some a →
    (s.durable.records path).isSome = true
  succeeded : ∀ x ∈ s.succeeded, Identifies cfg x.1 x.2 ∧
    ∃ path, cfg.path x.1 = some path ∧ s.durable.records path = some x.2

section Inv

variable {cfg : Config} {s s' : State} {i : ℕ} {job : Job} {stage : Stage} {caller : Caller}

theorem JobInv.grows (h : JobInv cfg s stage job) (hgrows : Grows s s') :
    JobInv cfg s' stage job where
  path := h.path
  payload := h.payload
  placed hstage := hgrows.directory.records _ _ (h.placed hstage)
  stored hstage := hgrows.durable.records _ _ (h.stored hstage)
  archived hstage := by
    obtain ⟨a, ha, hvisible⟩ := h.archived hstage
    exact ⟨a, ha, hgrows.directory.archives _ _ hvisible⟩
  retains := h.retains

theorem CallerInv.grows (h : CallerInv cfg s caller) (hgrows : Grows s s') :
    CallerInv cfg s' caller := by
  cases caller with
  | idle => trivial
  | importing identity path archive => exact h
  | running stage job => exact .grows h hgrows

section

variable (hs : Inv cfg s)
include hs

/-- A caller goes on to another stage. -/
theorem Inv.setCaller (hcaller : CallerInv cfg s caller) : Inv cfg (s.setCaller i caller) where
  durable := hs.durable
  callers j := by
    have hgrows : Grows s (s.setCaller i caller) := .of_eq rfl rfl
    change CallerInv cfg _ (update s.callers i caller j)
    by_cases hj : j = i
    · rw [hj, update_self]
      exact hcaller.grows hgrows
    · rw [update_of_ne hj]
      exact (hs.callers j).grows hgrows
  archives := hs.archives
  succeeded := hs.succeeded

/-- The directory gets another file, or is synced. -/
theorem Inv.grow {directory durable : Directory} (hgrows : Grows s { s with directory, durable })
    (hdurable : durable.Le directory) (harchives : ∀ path a, directory.archives path = some a →
      (durable.records path).isSome = true) : Inv cfg { s with directory, durable } where
  durable := hdurable
  callers j := (hs.callers j).grows hgrows
  archives := harchives
  succeeded x hx := by
    obtain ⟨hidentifies, path, hpath, hrecord⟩ := hs.succeeded x hx
    exact ⟨hidentifies, path, hpath, hgrows.durable.records _ _ hrecord⟩

theorem Inv.link (hjob : JobInv cfg s .synced job) :
    Inv cfg (s.link i job) ∧ Grows s (s.link i job) := by
  rw [State.link]
  split
  · next hfree =>
    have hle := Directory.le_linkRecord hfree job.payload
    have hgrows : Grows s { s with directory := { s.directory with
        records := update s.directory.records job.path (some job.payload) } } :=
      ⟨hle, .refl _⟩
    have hinv := hs.grow hgrows (hs.durable.trans hle) hs.archives
    refine ⟨@.setCaller cfg _ i (.running .linked job) hinv ?_, ⟨hle, .refl _⟩⟩
    refine ⟨hjob.path, hjob.payload, fun _ => ?_, nofun, nofun, nofun⟩
    exact update_self ..
  · exact ⟨hs.setCaller ⟨hjob.path, hjob.payload, nofun, nofun, nofun, nofun⟩, .of_eq rfl rfl⟩

theorem Inv.compare (hjob : JobInv cfg s .occupied job) :
    Inv cfg (s.compare i job) ∧ Grows s (s.compare i job) := by
  rw [State.compare]
  split
  · next hsame =>
    exact ⟨hs.setCaller ⟨hjob.path, hjob.payload, fun _ => hsame, nofun, nofun, nofun⟩,
      .of_eq rfl rfl⟩
  · exact ⟨hs.setCaller trivial, .of_eq rfl rfl⟩

theorem Inv.linkArchive {archive : ℕ} (hjob : JobInv cfg s .archiveSynced job)
    (harchive : job.archive = some archive) :
    Inv cfg (s.linkArchive i job archive) ∧ Grows s (s.linkArchive i job archive) := by
  have hstored := hjob.stored rfl
  rw [State.linkArchive]
  split
  · next hfree =>
    have hle := Directory.le_linkArchive hfree archive
    have hgrows : Grows s { s with directory := { s.directory with
        archives := update s.directory.archives job.path (some archive) } } :=
      ⟨hle, .refl _⟩
    have hinv := hs.grow hgrows (hs.durable.trans hle) (fun path a ha => by
      by_cases hpath : path = job.path
      · rw [hpath, hstored]
        rfl
      · dsimp only at ha
        rw [update_of_ne hpath] at ha
        exact hs.archives path a ha)
    refine ⟨@.setCaller cfg _ i (.running .archiveLinked job) hinv ?_, ⟨hle, .refl _⟩⟩
    refine ⟨hjob.path, hjob.payload, nofun, fun _ => hstored, fun _ => ⟨archive, harchive, ?_⟩,
      hjob.retains⟩
    exact update_self ..
  · exact ⟨hs.setCaller ⟨hjob.path, hjob.payload, nofun, fun _ => hstored, nofun, hjob.retains⟩,
      .of_eq rfl rfl⟩

theorem Inv.compareArchive {archive : ℕ} (hjob : JobInv cfg s .archiveOccupied job)
    (harchive : job.archive = some archive) :
    Inv cfg (s.compareArchive i job archive) ∧ Grows s (s.compareArchive i job archive) := by
  rw [State.compareArchive]
  split
  · next hsame =>
    exact ⟨hs.setCaller ⟨hjob.path, hjob.payload, nofun, fun _ => hjob.stored rfl,
      fun _ => ⟨archive, harchive, hsame⟩, hjob.retains⟩, .of_eq rfl rfl⟩
  · exact ⟨hs.setCaller trivial, .of_eq rfl rfl⟩

/-- After a sync of the directory every visible file is durable. -/
theorem Inv.syncDir : Inv cfg s.syncDir ∧ Grows s s.syncDir := by
  have hgrows : Grows s s.syncDir := ⟨.refl _, hs.durable⟩
  refine ⟨hs.grow hgrows (.refl _) fun path a ha => ?_, hgrows⟩
  obtain ⟨p, hp⟩ := isSome_iff_exists.mp (hs.archives path a ha)
  rw [hs.durable.records path p hp]
  rfl

theorem Inv.succeed (hpath : cfg.path job.identity = some job.path)
    (hpayload : Identifies cfg job.identity job.payload)
    (hstored : s.durable.records job.path = some job.payload) : Inv cfg (s.succeed i job) := by
  have hidle : Inv cfg (s.setCaller i .idle) := hs.setCaller trivial
  refine ⟨hidle.durable, fun j => (hidle.callers j).grows (.of_eq rfl rfl), hidle.archives,
    fun x hx => ?_⟩
  rcases mem_append.mp hx with hx | hx
  · exact hs.succeeded x hx
  · rw [mem_singleton.mp hx]
    exact ⟨hpayload, job.path, hpath, hstored⟩

/-- **The next step of a caller.** -/
theorem Inv.next (h : s.next i = some s') : Inv cfg s' ∧ Grows s s' := by
  have hcaller := hs.callers i
  rw [State.next] at h
  split at h
  · cases h
  · cases h
  next stage job hrunning =>
  rw [hrunning] at hcaller
  have hjob : JobInv cfg s stage job := hcaller
  split at h
  · cases h
    exact ⟨hs.setCaller ⟨hjob.path, hjob.payload, nofun, nofun, nofun, nofun⟩, .of_eq rfl rfl⟩
  · cases h
    exact hs.link hjob
  · cases h
    exact hs.compare hjob
  · cases h
    exact ⟨hs.setCaller ⟨hjob.path, hjob.payload, fun _ => hjob.placed rfl, nofun, nofun, nofun⟩,
      .of_eq rfl rfl⟩
  · cases h
    obtain ⟨hsync, hgrows⟩ := hs.syncDir
    exact ⟨hsync.succeed hjob.path hjob.payload (hjob.placed rfl), hgrows.trans (.of_eq rfl rfl)⟩
  · next archive harchive =>
    cases h
    obtain ⟨hsync, hgrows⟩ := hs.syncDir
    refine ⟨hsync.setCaller ⟨hjob.path, hjob.payload, nofun, fun _ => hjob.placed rfl, nofun,
      fun _ => ?_⟩, hgrows.trans (.of_eq rfl rfl)⟩
    rw [harchive]
    rfl
  · cases h
    exact ⟨hs.setCaller ⟨hjob.path, hjob.payload, nofun, fun _ => hjob.stored rfl, nofun,
      hjob.retains⟩, .of_eq rfl rfl⟩
  · next archive harchive =>
    cases h
    exact hs.linkArchive hjob harchive
  · next archive harchive =>
    cases h
    exact hs.compareArchive hjob harchive
  · cases h
    exact ⟨hs.setCaller ⟨hjob.path, hjob.payload, nofun, fun _ => hjob.stored rfl,
      fun _ => hjob.archived rfl, hjob.retains⟩, .of_eq rfl rfl⟩
  · cases h
    obtain ⟨hsync, hgrows⟩ := hs.syncDir
    exact ⟨hsync.succeed hjob.path hjob.payload
      (hgrows.durable.records _ _ (hjob.stored rfl)), hgrows.trans (.of_eq rfl rfl)⟩
  · cases h
  · cases h

/-- A crash keeps what is durable. -/
theorem Inv.crash (records archives : ℕ → Bool) :
    Inv cfg (s.crash records archives) ∧ s.durable.Le (s.crash records archives).durable := by
  have hle : s.durable.Le (s.crash records archives).directory := by
    refine ⟨fun path p hp => ?_, fun path a ha => ?_⟩
    · change (if records path then s.directory.records path else s.durable.records path) = some p
      split
      · exact hs.durable.records path p hp
      · exact hp
    · change (if archives path then s.directory.archives path else s.durable.archives path) = some a
      split
      · exact hs.durable.archives path a ha
      · exact ha
  refine ⟨⟨.refl _, fun _ => trivial, fun path a ha => ?_, fun x hx => ?_⟩, hle⟩
  · have harchive : s.directory.archives path = some a := by
      change (if archives path then s.directory.archives path else s.durable.archives path) =
        some a at ha
      split at ha
      · exact ha
      · exact hs.durable.archives path a ha
    obtain ⟨p, hp⟩ := isSome_iff_exists.mp (hs.archives path a harchive)
    change ((s.crash records archives).directory.records path).isSome = true
    rw [hle.records path p hp]
    rfl
  · obtain ⟨hidentifies, path, hpath, hrecord⟩ := hs.succeeded x hx
    exact ⟨hidentifies, path, hpath, hle.records _ _ hrecord⟩

end

theorem identifies_marshal (cfg : Config) (snapshot : TaskCheckpoint) (jobID : ℕ) :
    Identifies cfg (snapshot.identity jobID) (cfg.marshal snapshot) := rfl

/-- **One step.** -/
theorem Inv.after {a : Action} (hs : Inv cfg s) (h : step cfg s a = some s') :
    Inv cfg s' ∧ ((∀ records archives, a ≠ .crash records archives) → Grows s s') ∧
      s.durable.Le s'.durable := by
  have hquiet : ∀ (i : ℕ) (caller : Caller), CallerInv cfg s caller → s' = s.setCaller i caller →
      Inv cfg s' ∧ ((∀ records archives, a ≠ .crash records archives) → Grows s s') ∧
        s.durable.Le s'.durable := by
    intro i caller hcaller heq
    rw [heq]
    exact ⟨hs.setCaller hcaller, fun _ => .of_eq rfl rfl, .refl _⟩
  cases a with
  | put i jobID snapshot =>
    rw [step] at h
    split at h
    · next path hidle hpath =>
      cases h
      refine hquiet i (.running .staging _) ?_ rfl
      exact ⟨hpath, identifies_marshal cfg snapshot jobID, nofun, nofun, nofun, nofun⟩
    · cases h
  | importArchive i identity archive =>
    rw [step] at h
    split at h
    · next path hidle hpath =>
      cases h
      exact hquiet i (.importing identity path archive) hpath rfl
    · cases h
  | unpacked i snapshot =>
    have hcaller := hs.callers i
    rw [step] at h
    split at h
    · next identity path archive himporting =>
      rw [himporting] at hcaller
      split at h
      · next hidentity =>
        cases h
        refine hquiet i (.running .staging _) ?_ rfl
        refine ⟨hcaller, ?_, nofun, nofun, nofun, nofun⟩
        have hidentifies := identifies_marshal cfg snapshot identity.jobID
        rw [hidentity] at hidentifies
        exact hidentifies
      · cases h
        exact hquiet i .idle trivial rfl
    · cases h
  | next i =>
    obtain ⟨hinv, hgrows⟩ := hs.next h
    exact ⟨hinv, fun _ => hgrows, hgrows.durable⟩
  | fail i =>
    cases h
    exact hquiet i .idle trivial rfl
  | crash records archives =>
    cases h
    obtain ⟨hinv, hle⟩ := hs.crash records archives
    exact ⟨hinv, fun hnot => absurd rfl (hnot records archives), hle⟩

theorem inv_of_reachable (h : Reachable cfg s) : Inv cfg s := by
  refine h.invariant (P := Inv cfg) ?_ fun s a s' _ hs _ hstep => (hs.after hstep).1
  exact ⟨.refl _, fun _ => trivial, fun _ _ h => (nomatch h), fun _ h => absurd h not_mem_nil⟩

end Inv

/-! ## Write-once and durable -/

/-- The action is not a crash. -/
def Action.Uninterrupted (a : Action) : Prop :=
  ∀ records archives, a ≠ .crash records archives

/-- Another payload is visible at the place of a call, or another archive is retained there. -/
def Differs (s : State) (job : Job) : Prop :=
  (∃ p, s.directory.records job.path = some p ∧ p ≠ job.payload) ∨
    ∃ a b, job.archive = some a ∧ s.directory.archives job.path = some b ∧ b ≠ a

section Once

variable {cfg : Config} {s s' : State} {i : ℕ} {job : Job} {stage : Stage}
  {identity : Identity} {payload : TaskCheckpoint}

/-- **A file is written once.** -/
theorem Inv.grows_of_reaches (hs : Inv cfg s)
    (h : Reaches (step cfg) (fun _ a => a.Uninterrupted) s s') : Inv cfg s' ∧ Grows s s' := by
  refine h.invariant (P := fun t => Inv cfg t ∧ Grows s t) ⟨hs, .of_eq rfl rfl⟩
    fun t a t' _ ht hgoes hstep => ?_
  obtain ⟨hinv, hgrows, -⟩ := ht.1.after hstep
  exact ⟨hinv, ht.2.trans (hgrows hgoes)⟩

/-- **What is durable stays, crashes included.** -/
theorem Inv.durable_of_reachable (hs : Inv cfg s) (h : Runs.Reachable (step cfg) s s') :
    Inv cfg s' ∧ s.durable.Le s'.durable := by
  refine h.invariant (P := fun t => Inv cfg t ∧ s.durable.Le t.durable) ⟨hs, .refl _⟩
    fun t a t' _ ht _ hstep => ?_
  obtain ⟨hinv, -, hle⟩ := ht.1.after hstep
  exact ⟨hinv, ht.2.trans hle⟩

theorem get_of_visible (hvisible : Visible cfg s identity payload) : get cfg s identity =
    if payload.identity identity.jobID = identity then .ok payload else .error .corrupt := by
  obtain ⟨path, hpath, hrecord⟩ := hvisible
  rw [get, hpath]
  dsimp only
  rw [hrecord]

theorem visible_of_get (h : get cfg s identity = .ok payload) : Visible cfg s identity payload := by
  rw [get] at h
  split at h
  · cases h
  next path hpath =>
  split at h
  · cases h
  next p hrecord =>
  split at h
  · cases h
    exact ⟨path, hpath, hrecord⟩
  · cases h

theorem Visible.unique {payload' : TaskCheckpoint} (h : Visible cfg s identity payload)
    (h' : Visible cfg s identity payload') : payload' = payload := by
  obtain ⟨path, hpath, hrecord⟩ := h
  obtain ⟨path', hpath', hrecord'⟩ := h'
  obtain rfl : path = path' := some.inj (hpath.symm.trans hpath')
  exact some.inj (hrecord'.symm.trans hrecord)

/-- A call that could differ from what is visible finds a record at its place. -/
theorem Inv.record_of_differs (hs : Inv cfg s) (hdiffers : Differs s job) :
    ∃ p, s.directory.records job.path = some p := by
  rcases hdiffers with ⟨p, hp, -⟩ | ⟨-, b, -, hb, -⟩
  · exact ⟨p, hp⟩
  · obtain ⟨p, hp⟩ := isSome_iff_exists.mp (hs.archives _ b hb)
    exact ⟨p, hs.durable.records _ p hp⟩

/-- A record that this call or an equal one has linked is not another one. -/
theorem Differs.archive (hdiffers : Differs s job)
    (hrecord : s.directory.records job.path = some job.payload) :
    ∃ a b, job.archive = some a ∧ s.directory.archives job.path = some b ∧ b ≠ a := by
  rcases hdiffers with ⟨p, hp, hne⟩ | harchive
  · exact absurd (some.inj (hp.symm.trans hrecord)) hne
  · exact harchive

/-- **A call with other content.**  Its next step neither succeeds nor changes a visible file. -/
theorem Inv.next_of_differs (hs : Inv cfg s) (hrunning : s.callers i = .running stage job)
    (hdiffers : Differs s job) (h : s.next i = some s') :
    s'.succeeded = s.succeeded ∧ s'.directory = s.directory := by
  have hcaller := hs.callers i
  rw [hrunning] at hcaller
  have hjob : JobInv cfg s stage job := hcaller
  rw [State.next, hrunning] at h
  dsimp only at h
  split at h
  · cases h
    exact ⟨rfl, rfl⟩
  · cases h
    obtain ⟨p, hp⟩ := hs.record_of_differs hdiffers
    rw [State.link, hp]
    exact ⟨rfl, rfl⟩
  · cases h
    rw [State.compare]
    split <;> exact ⟨rfl, rfl⟩
  · cases h
    exact ⟨rfl, rfl⟩
  · next hnone =>
    -- without an archive only the payload could differ
    obtain ⟨a, -, ha, -⟩ := hdiffers.archive (hjob.placed rfl)
    rw [hnone] at ha
    cases ha
  · cases h
    exact ⟨rfl, rfl⟩
  · cases h
    exact ⟨rfl, rfl⟩
  · next archive harchive =>
    cases h
    obtain ⟨-, b, -, hb, -⟩ := hdiffers.archive (hs.durable.records _ _ (hjob.stored rfl))
    rw [State.linkArchive, hb]
    exact ⟨rfl, rfl⟩
  · cases h
    rw [State.compareArchive]
    split <;> exact ⟨rfl, rfl⟩
  · cases h
    exact ⟨rfl, rfl⟩
  · obtain ⟨a, b, ha, hb, hne⟩ := hdiffers.archive (hs.durable.records _ _ (hjob.stored rfl))
    obtain ⟨c, hc, hvisible⟩ := hjob.archived rfl
    obtain rfl : a = c := some.inj (ha.symm.trans hc)
    exact absurd (some.inj (hb.symm.trans hvisible)) hne
  · cases h
  · cases h

theorem Differs.grows (hdiffers : Differs s job) (hgrows : Grows s s') : Differs s' job := by
  rcases hdiffers with ⟨p, hp, hne⟩ | ⟨a, b, ha, hb, hne⟩
  · exact .inl ⟨p, hgrows.directory.records _ _ hp, hne⟩
  · exact .inr ⟨a, b, ha, hgrows.directory.archives _ _ hb, hne⟩

/-- What was reported is read back, if JSON keeps the task. -/
theorem Inv.get_of_succeeded (hs : Inv cfg s) (hmem : (identity, payload) ∈ s.succeeded)
    (hvalid : cfg.roundTrip identity.taskID = identity.taskID)
    (h : Runs.Reachable (step cfg) s s') : get cfg s' identity = .ok payload := by
  obtain ⟨hidentifies, path, hpath, hrecord⟩ := hs.succeeded _ hmem
  obtain ⟨hs', hle⟩ := hs.durable_of_reachable h
  have hvisible : Visible cfg s' identity payload :=
    ⟨path, hpath, hs'.durable.records _ _ (hle.records _ _ hrecord)⟩
  have hidentity : payload.identity identity.jobID = identity := by
    rw [hidentifies, hvalid]
  rw [get_of_visible hvisible, if_pos hidentity]

end Once

/-- **The store writes once between crashes, and for ever what it has reported.**  A payload that is
visible is the only one, and until the next crash it stays; `Get` returns it or an error; a call
with other content takes no step that succeeds or changes a visible file, and will not until the
next crash; and what a call has reported is what `Get` returns from then on, crashes included, if
the task is valid UTF-8. -/
theorem stored_once {cfg : Config} {s : State} (h : Reachable cfg s) :
    (∀ identity p, Visible cfg s identity p →
      (∀ q, Visible cfg s identity q → q = p) ∧
      (get cfg s identity = .ok p ∨ get cfg s identity = .error .corrupt) ∧
      ∀ s', Reaches (step cfg) (fun _ a => a.Uninterrupted) s s' → Visible cfg s' identity p) ∧
    (∀ identity p, get cfg s identity = .ok p → Visible cfg s identity p) ∧
    (∀ job, Differs s job → ∀ t, Reaches (step cfg) (fun _ a => a.Uninterrupted) s t →
      Differs t job ∧ ∀ i stage t', t.callers i = .running stage job →
        step cfg t (.next i) = some t' →
          t'.succeeded = t.succeeded ∧ t'.directory = t.directory) ∧
    ∀ identity p, (identity, p) ∈ s.succeeded →
      cfg.roundTrip identity.taskID = identity.taskID →
        ∀ s', Runs.Reachable (step cfg) s s' → get cfg s' identity = .ok p := by
  have hs := inv_of_reachable h
  refine ⟨fun identity p hp => ⟨fun q hq => hp.unique hq, ?_, fun s' h' => ?_⟩,
    fun identity p hget => visible_of_get hget, fun job hdiffers t ht => ?_,
    fun identity p hmem hvalid s' h' => hs.get_of_succeeded hmem hvalid h'⟩
  · rw [get_of_visible hp]
    split
    · exact .inl rfl
    · exact .inr rfl
  · obtain ⟨path, hpath, hrecord⟩ := hp
    exact ⟨path, hpath, (hs.grows_of_reaches h').2.directory.records _ _ hrecord⟩
  · obtain ⟨hinv, hgrows⟩ := hs.grows_of_reaches ht
    have hdiffers' := hdiffers.grows hgrows
    exact ⟨hdiffers', fun i stage t' hrunning hnext =>
      hinv.next_of_differs hrunning hdiffers' hnext⟩

section Lost

theorem ok_of_toOption {ε α : Type*} {e : Except ε α} {a : α} (h : e.toOption = some a) :
    e = .ok a := by
  cases e with
  | error => cases h
  | ok => exact congrArg _ (some.inj h)

/-- Every string is valid, and the name of a file is the checkpoint's. -/
def plainConfig : Config where
  roundTrip := id
  path identity := some identity.id

def lostSnapshot : TaskCheckpoint := ⟨0, 1, 0, 10⟩

def keptSnapshot : TaskCheckpoint := ⟨0, 1, 0, 20⟩

/-- A snapshot is stored, and another call brings another one for the same identity. -/
def storeRun : List Action :=
  [.put 1 0 keptSnapshot, .next 1, .next 1, .next 1, .next 1, .put 0 0 lostSnapshot]

/-- A call has linked its record and does not come to sync the directory. -/
def linkRun : List Action :=
  [.put 0 0 lostSnapshot, .next 0, .next 0]

/-- The link is lost, and another call stores its own snapshot. -/
def replaceRun : List Action :=
  .crash (fun _ => false) (fun _ => false) :: storeRun

theorem stored_once_conflict : ∃ s, Reachable plainConfig s ∧
    (⟨0, 0, 1, 0⟩, keptSnapshot) ∈ s.succeeded ∧
      ∀ s', Runs.Reachable (step plainConfig) s s' →
        get plainConfig s' ⟨0, 0, 1, 0⟩ = .ok keptSnapshot := by
  obtain ⟨s, hs, hmem⟩ := Runs.reachable_of_run (step plainConfig) {} storeRun
    (p := fun s => (⟨0, 0, 1, 0⟩, keptSnapshot) ∈ s.succeeded) (by decide)
  obtain ⟨-, -, -, hreported⟩ := stored_once hs
  exact ⟨s, hs, hmem, hreported _ _ hmem rfl⟩

/-- The name of task 9 is not valid UTF-8, and JSON makes it that of task 8. -/
def lossyConfig : Config where
  roundTrip taskID := if taskID = 9 then 8 else taskID
  path identity := some identity.id

/-- What was reported for a task that is not valid UTF-8 is not read back. -/
theorem invalid_task_unread : ∃ s, Reachable lossyConfig s ∧
    (⟨0, 9, 1, 0⟩, ⟨8, 1, 0, 10⟩) ∈ s.succeeded ∧
      get lossyConfig s ⟨0, 9, 1, 0⟩ = .error .corrupt := by
  obtain ⟨s, hs, hmem, hrecord⟩ := reachable_of_run (step lossyConfig) {}
    [.put 1 0 ⟨9, 1, 0, 10⟩, .next 1, .next 1, .next 1, .next 1]
    (p := fun s => (⟨0, 9, 1, 0⟩, ⟨8, 1, 0, 10⟩) ∈ s.succeeded ∧
      s.directory.records 1 = some ⟨8, 1, 0, 10⟩) (by decide)
  refine ⟨s, hs, hmem, ?_⟩
  rw [get_of_visible (⟨1, rfl, hrecord⟩ : Visible lossyConfig s ⟨0, 9, 1, 0⟩ _), if_neg (by decide)]

/-- **A visible snapshot can be lost, and another one take its place.** -/
theorem two_payloads_visible : ∃ s₁ s₂, Reachable plainConfig s₁ ∧
    Runs.Reachable (step plainConfig) s₁ s₂ ∧
    get plainConfig s₁ ⟨0, 0, 1, 0⟩ = .ok lostSnapshot ∧
    get plainConfig s₂ ⟨0, 0, 1, 0⟩ = .ok keptSnapshot ∧ lostSnapshot ≠ keptSnapshot := by
  obtain ⟨s₁, hs₁, hlost, hrun⟩ := reachable_of_run (step plainConfig) {} linkRun
    (p := fun s => (get plainConfig s ⟨0, 0, 1, 0⟩).toOption = some lostSnapshot ∧
      ∃ s' ∈ run (step plainConfig) s replaceRun,
        (get plainConfig s' ⟨0, 0, 1, 0⟩).toOption = some keptSnapshot) (by decide)
  obtain ⟨s₂, hs₂, hkept⟩ := reachable_of_run (step plainConfig) s₁ replaceRun hrun
  exact ⟨s₁, s₂, hs₁, hs₂, ok_of_toOption hlost, ok_of_toOption hkept, by decide⟩

end Lost

end Wire.Engine.CheckpointStore
