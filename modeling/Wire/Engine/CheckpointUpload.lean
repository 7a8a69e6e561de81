import Wire.Engine.Event
import Wire.Library.Guard
import Wire.Library.Runs

/-!
# Checkpoint uploads

The chain hands the snapshot of a checkpoint to the uploader and goes on.  Each upload is a
goroutine of its own; its result comes back through the channel `results`.  The channel `slots`
bounds the uploads: `Submit` puts a token into it, and whoever ends the life of the upload takes one
out.  That is the chain when it has received the result, or the upload itself when the context of
the uploader is done.

A state has the two channels, the uploads with the place where each of them is, and what the chain
has received.  `step` lets any of the parties go on by one statement that others can see, so that a
run is any interleaving.  `Replicate` may return at any time, with or without an error.

`Balanced` is the account of the tokens: each of them belongs to an upload that is not over, to a
result in the channel, or to the result that the chain has just received.  So no upload waits for
the chain, and the chain finds a token for every result.  It is also the account of the results:
what the chain was given, and what is still in the channel, are the results of the uploads that have
sent one, each of them once (`uploads_bounded`). -/

namespace Wire.Engine

open Function Guard List Option

/-- `checkpointUploadResult`. -/
structure CheckpointUploadResult where
  identity : CheckpointIdentity
  err : Option String
deriving DecidableEq

/-- Where the goroutine of an upload is. -/
inductive UploadPhase where
  | replicating
  /-- `Replicate` has returned; the goroutine is at its `select`. -/
  | sending (err : Option String)
  /-- The context was done; the goroutine takes its token out. -/
  | freeing
  | sent (err : Option String)
  | freed
deriving DecidableEq

structure Upload where
  identity : CheckpointIdentity
  phase : UploadPhase := .replicating
deriving DecidableEq

/-- It is not over, and has a token. -/
def Upload.holds (x : Upload) : Bool :=
  match x.phase with
  | .sent _ | .freed => false
  | _ => true

/-- The result that it has sent. -/
def Upload.result (x : Upload) : Option CheckpointUploadResult :=
  match x.phase with
  | .sent err => some ⟨x.identity, err⟩
  | _ => none

/-- `checkpointUploader`; both channels have room for `concurrency` entries.  The last fields are
about the chain. -/
structure CheckpointUploader where
  concurrency : ℕ
  closed : Bool := false
  /-- The context of the uploader is done. -/
  canceled : Bool := false
  slots : ℕ := 0
  results : List CheckpointUploadResult := []
  resultsClosed : Bool := false
  uploads : List Upload := []
  /-- `pending` of `chainCheckpointState`. -/
  pending : CheckpointIdentity → Bool := fun _ => false
  /-- What the chain has received and not yet taken the token of.  A receive from the closed channel
  gives the zero value, here `none`: the chain does not ask whether there was a result. -/
  received : Option (Option CheckpointUploadResult) := none
  /-- The checkpoints for which `Submit` returned no error. -/
  admitted : List CheckpointIdentity := []
  /-- All results that the chain has received. -/
  consumed : List CheckpointUploadResult := []

inductive SubmitError where
  | closed
  | canceled
  | zeroID
  | busy
deriving DecidableEq

namespace CheckpointUploader

/-- `newCheckpointUploader`, with a replicator. -/
def new (concurrency : ℤ) : Except String CheckpointUploader := do
  require (1 ≤ concurrency) "checkpoint uploader requires positive concurrency and a replicator"
  return { concurrency := concurrency.toNat }

/-- `Submit`. -/
def submit (u : CheckpointUploader) (identity : CheckpointIdentity) :
    Except SubmitError CheckpointUploader := do
  require (u.closed = false) .closed
  require (u.canceled = false) .canceled
  require (identity.id ≠ 0) .zeroID
  require (u.slots < u.concurrency) .busy
  return { u with
    slots := u.slots + 1
    uploads := u.uploads ++ [{ identity }] }

/-- `submit` of the chain.  A checkpoint stays pending when `Submit` fails. -/
def submitPending (u : CheckpointUploader) (identity : CheckpointIdentity) : CheckpointUploader :=
  if u.pending identity then u
  else
    let marked := { u with pending := update u.pending identity true }
    match marked.submit identity with
    | .ok u' => { u' with admitted := u.admitted ++ [identity] }
    | .error _ => marked

inductive Action where
  | submit (identity : CheckpointIdentity)
  /-- `Replicate` of an upload returns. -/
  | returns (i : ℕ) (err : Option String)
  /-- The upload sends its result. -/
  | send (i : ℕ)
  /-- The upload finds the context done. -/
  | shutDown (i : ℕ)
  | free (i : ℕ)
  /-- The chain receives from `results`. -/
  | receive
  | complete
  /-- `abort` of the chain.  `Cancel` is for the context of one upload: only its `Replicate` sees
  that. -/
  | abort (identity : CheckpointIdentity)
  /-- The context is done, by `Close` or from outside. -/
  | cancelContext
  /-- `Close` sets `closed`. -/
  | close
  /-- `Close` has waited for the uploads and closes `results`. -/
  | closeResults

def step (u : CheckpointUploader) : Action → Option CheckpointUploader
  | .submit identity => some (u.submitPending identity)
  | .returns i err => (u.uploads[i]?).bind fun upload =>
    if upload.phase = .replicating then
      some { u with uploads := u.uploads.set i { upload with phase := .sending err } }
    else none
  | .send i => (u.uploads[i]?).bind fun upload =>
    match upload.phase with
    | .sending err =>
      if u.results.length < u.concurrency ∧ u.resultsClosed = false then
        some { u with
          results := u.results ++ [⟨upload.identity, err⟩]
          uploads := u.uploads.set i { upload with phase := .sent err } }
      else none
    | _ => none
  | .shutDown i => (u.uploads[i]?).bind fun upload =>
    match upload.phase with
    | .sending _ =>
      if u.canceled then
        some { u with uploads := u.uploads.set i { upload with phase := .freeing } }
      else none
    | _ => none
  | .free i => (u.uploads[i]?).bind fun upload =>
    if upload.phase = .freeing ∧ 0 < u.slots then
      some { u with
        slots := u.slots - 1
        uploads := u.uploads.set i { upload with phase := .freed } }
    else none
  | .receive =>
    match u.received, u.results with
    | none, result :: results =>
      some { u with results, received := some (some result), consumed := u.consumed ++ [result] }
    | none, [] => if u.resultsClosed then some { u with received := some none } else none
    | some _, _ => none
  | .complete => u.received.bind fun received =>
    let result := received.getD ⟨⟨0, 0⟩, none⟩
    if 0 < u.slots then
      some { u with
        slots := u.slots - 1
        received := none
        pending := if result.err = none then update u.pending result.identity false else u.pending }
    else none
  | .abort identity => some { u with pending := update u.pending identity false }
  | .cancelContext => some { u with canceled := true }
  | .close => some { u with closed := true }
  | .closeResults =>
    if u.closed ∧ u.canceled ∧ ∀ upload ∈ u.uploads, upload.holds = false then
      some { u with resultsClosed := true }
    else none

/-! ## The account of the tokens -/

/-- What the chain has received counts if it is a result. -/
def taken (u : CheckpointUploader) : ℕ :=
  match u.received with
  | some (some _) => 1
  | _ => 0

/-- The uploads that are not over. -/
def running (u : CheckpointUploader) : ℕ := u.uploads.countP Upload.holds

structure Balanced (n : ℕ) (u : CheckpointUploader) : Prop where
  tokens : u.slots = u.running + u.results.length + u.taken
  bound : u.slots ≤ u.concurrency
  capacity : u.concurrency = n
  /-- Each submit that was accepted has started an upload. -/
  admitted : u.uploads.map (·.identity) = u.admitted
  /-- What was sent is in the channel or has been received. -/
  delivered : (u.consumed ++ u.results).Perm (u.uploads.filterMap Upload.result)
  shutDown : ∀ x ∈ u.uploads, x.phase = .freeing ∨ x.phase = .freed → u.canceled = true
  closed : u.resultsClosed = true → u.closed = true ∧ ∀ x ∈ u.uploads, x.holds = false
  /-- The chain gets no result only when there is none left. -/
  drained : u.received = some none → u.resultsClosed = true ∧ u.results = []

variable {n i : ℕ} {u u' : CheckpointUploader} {x y : Upload}

theorem result_of_holds (h : x.holds = true) : x.result = none := by
  rw [Upload.holds] at h
  rw [Upload.result]
  split <;> simp_all

/-- One entry that has no result is replaced. -/
theorem filterMap_result_set {l : List Upload} (hi : i < l.length) (h : l[i].holds = true) :
    ((l.set i y).filterMap Upload.result).Perm
      (l.filterMap Upload.result ++ y.result.toList) := by
  have hold : l.filterMap Upload.result =
      (l.take i).filterMap Upload.result ++ (l.drop (i + 1)).filterMap Upload.result := by
    conv_lhs => rw [← take_append_drop i l, drop_eq_getElem_cons hi]
    rw [filterMap_append, filterMap_cons_none (result_of_holds h)]
  rw [set_eq_take_append_cons_drop, if_pos hi, filterMap_append, hold, append_assoc]
  refine .append_left _ ?_
  cases hy : y.result with
  | none => simp [hy]
  | some r => simpa [hy] using @perm_append_comm _ [r] _

/-- An upload that is not over goes on. -/
theorem Balanced.advance (h : Balanced n u) (hx : u.uploads[i]? = some x) (hopen : x.holds = true)
    (hy : y.identity = x.identity)
    (hdown : y.phase = .freeing ∨ y.phase = .freed → u.canceled = true)
    {slots : ℕ} (hslots : slots ≤ u.slots)
    (htokens : slots + 1 = u.slots + y.result.toList.length + if y.holds = true then 1 else 0) :
    Balanced n { u with
      slots
      results := u.results ++ y.result.toList
      uploads := u.uploads.set i y } := by
  obtain ⟨hi, rfl⟩ := List.getElem?_eq_some_iff.mp hx
  have hmem : u.uploads[i] ∈ u.uploads := getElem_mem hi
  have hpos : 0 < u.uploads.countP Upload.holds := countP_pos_iff.mpr ⟨_, hmem, hopen⟩
  have hnot : u.resultsClosed ≠ true := by
    intro hclosed
    cases hopen.symm.trans ((h.closed hclosed).2 _ hmem)
  refine ⟨?_, hslots.trans h.bound, h.capacity, ?_, ?_, fun z hz => ?_,
    fun hclosed => absurd hclosed hnot, fun hnone => absurd (h.drained hnone).1 hnot⟩
  · show slots = (u.uploads.set i y).countP Upload.holds + (u.results ++ _).length + u.taken
    have htokens' := h.tokens
    rw [running] at htokens'
    rw [countP_set hi, if_pos hopen, length_append]
    omega
  · show (u.uploads.set i y).map Upload.identity = u.admitted
    rw [← h.admitted, map_set, hy, ← getElem_map Upload.identity, set_getElem_self]
    rwa [length_map]
  · show (u.consumed ++ (u.results ++ _)).Perm _
    rw [← append_assoc]
    exact (h.delivered.append_right _).trans (filterMap_result_set hi hopen).symm
  · rcases mem_or_eq_of_mem_set hz with hz | rfl
    · exact h.shutDown z hz
    · exact hdown

/-- A submit that is accepted starts an upload. -/
theorem Balanced.submitPending (h : Balanced n u) (identity : CheckpointIdentity) :
    Balanced n (u.submitPending identity) := by
  rw [CheckpointUploader.submitPending]
  split
  · exact h
  · dsimp only
    split
    · next hsubmit =>
      simp only [submit, bind_eq_ok, require_eq_ok, pure_eq_ok] at hsubmit
      obtain ⟨-, hlive, -, -, -, -, -, hroom, rfl⟩ := hsubmit
      have htokens := h.tokens
      rw [running] at htokens
      refine ⟨?_, hroom, h.capacity, ?_, ?_, fun x hx => ?_, fun hclosed => ?_, h.drained⟩
      · show u.slots + 1 = (u.uploads ++ [_]).countP Upload.holds + u.results.length + u.taken
        rw [countP_append, countP_singleton, show Upload.holds _ = true from rfl, if_pos rfl]
        omega
      · show (u.uploads ++ [_]).map Upload.identity = u.admitted ++ [identity]
        rw [map_append, h.admitted]
        rfl
      · show (u.consumed ++ u.results).Perm ((u.uploads ++ [_]).filterMap Upload.result)
        rw [filterMap_append]
        exact h.delivered.trans (.of_eq (append_nil _).symm)
      · rcases mem_append.mp hx with hx | hx
        · exact h.shutDown x hx
        · cases mem_singleton.mp hx
          simp
      · cases hlive.symm.trans (h.closed hclosed).1
    · exact { h with }

theorem Balanced.step (h : Balanced n u) {a : Action} (hstep : u.step a = some u') :
    Balanced n u' := by
  have htokens := h.tokens
  cases a with
    simp only [CheckpointUploader.step, bind_eq_some_iff, ite_some_none_eq_some] at hstep
  | submit identity =>
    cases hstep
    exact h.submitPending identity
  | returns i err =>
    obtain ⟨x, hx, hphase, rfl⟩ := hstep
    simpa [Upload.result] using h.advance (y := { x with phase := .sending err }) hx
      (by simp [Upload.holds, hphase]) rfl (by simp) le_rfl rfl
  | send i =>
    obtain ⟨x, hx, hstep⟩ := hstep
    split at hstep
    · next err hphase =>
      obtain ⟨-, rfl⟩ := ite_some_none_eq_some.mp hstep
      exact h.advance (y := { x with phase := .sent err }) hx (by simp [Upload.holds, hphase])
        rfl (by simp) le_rfl rfl
    · cases hstep
  | shutDown i =>
    obtain ⟨x, hx, hstep⟩ := hstep
    split at hstep
    · next err hphase =>
      obtain ⟨hcanceled, rfl⟩ := ite_some_none_eq_some.mp hstep
      simpa [Upload.result] using h.advance (y := { x with phase := .freeing }) hx
        (by simp [Upload.holds, hphase]) rfl (fun _ => hcanceled) le_rfl rfl
    · cases hstep
  | free i =>
    obtain ⟨x, hx, ⟨hphase, hpos⟩, rfl⟩ := hstep
    have hcanceled := h.shutDown x (mem_of_getElem? hx) (.inl hphase)
    simpa [Upload.result] using h.advance (y := { x with phase := .freed }) hx
      (by simp [Upload.holds, hphase]) rfl (fun _ => hcanceled) (Nat.sub_le _ _)
      (Nat.sub_add_cancel hpos)
  | receive =>
    split at hstep
    · next hnone hresults =>
      cases hstep
      refine { h with tokens := ?_, delivered := ?_, drained := by simp }
      · simp [taken, hnone, hresults, running] at htokens ⊢
        omega
      · simpa [hresults] using h.delivered
    · next hnone hresults =>
      obtain ⟨hclosed, rfl⟩ := ite_some_none_eq_some.mp hstep
      refine { h with tokens := ?_, drained := fun _ => ⟨hclosed, hresults⟩ }
      simpa [taken, hnone, running] using htokens
    · cases hstep
  | complete =>
    obtain ⟨r, hreceived, hpos, rfl⟩ := hstep
    refine { h with tokens := ?_, bound := (Nat.sub_le _ _).trans h.bound, drained := by simp }
    show u.slots - 1 = u.running + u.results.length + 0
    cases r with simp only [taken, hreceived] at htokens
    | some r => omega
    | none =>
      -- the zero value of the closed channel: every token was taken out before
      obtain ⟨hclosed, hresults⟩ := h.drained hreceived
      have hover : u.running = 0 := by
        simpa [running, countP_eq_zero] using (h.closed hclosed).2
      simp only [hover, hresults, length_nil] at htokens
      omega
  | abort identity =>
    cases hstep
    exact { h with }
  | cancelContext =>
    cases hstep
    exact { h with shutDown := fun _ _ _ => rfl }
  | close =>
    cases hstep
    exact { h with closed := fun hclosed => ⟨rfl, (h.closed hclosed).2⟩ }
  | closeResults =>
    obtain ⟨⟨hclosed, -, hdone⟩, rfl⟩ := hstep
    exact { h with
      closed := fun _ => ⟨hclosed, hdone⟩
      drained := fun hnone => ⟨rfl, (h.drained hnone).2⟩ }

/-- **Uploads are bounded, and nobody waits for a token or for room.**  `Submit` accepts a
checkpoint whenever there is a slot for it, each accepted one has its upload, and the results that
the chain has received or will receive are those of the uploads that have sent one.  An upload frees
its slot itself only on shutdown. -/
theorem uploads_bounded {concurrency : ℤ} {u₀ : CheckpointUploader}
    (hnew : new concurrency = .ok u₀) (h : Runs.Reachable step u₀ u) :
    (u.running + u.results.length : ℕ) ≤ concurrency ∧
    u.slots = u.running + u.results.length + u.taken ∧
    (∀ identity : CheckpointIdentity, u.closed = false → u.canceled = false → identity.id ≠ 0 →
      u.slots < concurrency → (u.submit identity).isOk = true) ∧
    u.uploads.map (·.identity) = u.admitted ∧
    (u.consumed ++ u.results).Perm (u.uploads.filterMap Upload.result) ∧
    (∀ x ∈ u.uploads, x.phase = .freeing ∨ x.phase = .freed → u.canceled = true) ∧
    (∀ i x err, u.uploads[i]? = some x → x.phase = .sending err → (u.step (.send i)).isSome) ∧
    (∀ i x, u.uploads[i]? = some x → x.phase = .freeing → (u.step (.free i)).isSome) ∧
    ∀ r, u.received = some (some r) → (u.step .complete).isSome := by
  simp only [new, bind_eq_ok, require_eq_ok, pure_eq_ok] at hnew
  obtain ⟨-, hpos, rfl⟩ := hnew
  have hbalanced : Balanced concurrency.toNat u := by
    refine h.invariant ⟨rfl, Nat.zero_le _, rfl, rfl, .nil, by simp, by simp, by simp⟩ ?_
    exact fun s a s' _ hs _ hstep => hs.step hstep
  obtain ⟨htokens, hbound, hcapacity, hadmitted, hdelivered, hdown, hclosed, -⟩ := hbalanced
  have hholds : ∀ {i : ℕ} {x : Upload}, u.uploads[i]? = some x → x.holds = true →
      0 < u.running ∧ u.resultsClosed = false := by
    intro i x hx hopen
    have hmem := mem_of_getElem? hx
    refine ⟨countP_pos_iff.mpr ⟨x, hmem, hopen⟩, Bool.eq_false_iff.mpr fun hc => ?_⟩
    cases hopen.symm.trans ((hclosed hc).2 x hmem)
  refine ⟨by omega, htokens, fun identity hopen hlive hid hroom => ?_, hadmitted, hdelivered, hdown,
    fun i x err hx hphase => ?_, fun i x hx hphase => ?_, fun r hr => ?_⟩
  · have hslot : u.slots < u.concurrency := by omega
    simp [submit, require, hopen, hlive, hid, hslot]
    rfl
  · obtain ⟨hheld, hopen⟩ := hholds hx (by simp [Upload.holds, hphase])
    simp [step, hx, hphase, hopen]
    omega
  · obtain ⟨hheld, -⟩ := hholds hx (by simp [Upload.holds, hphase])
    simp [step, hx, hphase]
    omega
  · simp only [taken, hr] at htokens
    simp [step, hr]
    omega

/-- Two slots: the third checkpoint is refused, the result of the first makes room for the fourth,
and the second is shut down. -/
theorem uploads_bounded_shutDown : ∃ u, Runs.Reachable step { concurrency := 2 } u ∧
    u.admitted = [⟨1, 1⟩, ⟨2, 1⟩, ⟨4, 1⟩] ∧ u.consumed = [⟨⟨1, 1⟩, none⟩] ∧
    u.uploads.map (·.phase) = [.sent none, .freed, .replicating] ∧
    u.slots = u.running + u.results.length + u.taken ∧
    (u.consumed ++ u.results).Perm (u.uploads.filterMap Upload.result) := by
  obtain ⟨u, hu, hadmitted, hconsumed, hphases⟩ := Runs.reachable_of_run step { concurrency := 2 }
    [.submit ⟨1, 1⟩, .submit ⟨2, 1⟩, .submit ⟨3, 1⟩, .returns 0 none, .send 0, .receive, .complete,
      .submit ⟨4, 1⟩, .returns 1 (some "lost"), .cancelContext, .shutDown 1, .free 1]
    (p := fun u => u.admitted = [⟨1, 1⟩, ⟨2, 1⟩, ⟨4, 1⟩] ∧ u.consumed = [⟨⟨1, 1⟩, none⟩] ∧
      u.uploads.map (·.phase) = [.sent none, .freed, .replicating]) (by decide)
  have hnew : new 2 = .ok { concurrency := 2 } := rfl
  obtain ⟨-, htokens, -, -, hdelivered, -⟩ := uploads_bounded hnew hu
  exact ⟨u, hu, hadmitted, hconsumed, hphases, htokens, hdelivered⟩

end CheckpointUploader
end Wire.Engine
