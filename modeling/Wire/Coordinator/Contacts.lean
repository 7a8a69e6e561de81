import Wire.Coordinator.Reports

/-!
# Contacts with workers

A worker's authority to run its tasks ends when the coordinator has not heard of it for the
timeout.  The log has every contact that was accepted, with its epoch and its time; the coordinator
itself remembers one time per worker, a flag for workers that were lost, and after a restart only
that the workers of the store exist.  `Watched` says how the two agree within one term: the
remembered time is that of the last contact, no time means no contact in this term, and a worker
that is lost or unknown is quiet.

Two steps break this and are excluded by hypotheses of `Watched.taskMove`: the removal of a worker
that is live, and the put-back of a worker that could not be deleted from the store, which
overwrites whatever was registered in between.

`Dated` is the other half.  Epochs of contacts and assignments never exceed that of the store, so
a recovery begins a term in which nobody was heard of and nothing assigned.
-/

namespace Wire.Coordinator

open List Function AList

/-! ## Contacts and reports in the log -/

/-- The epoch and the time of a contact with the worker. -/
def Event.contact (w : WorkerID) : Event → Option (ℕ × Time)
  | .contacted v epoch time => if v = w then some (epoch, time) else none
  | _ => none

/-- The last contact with the worker that was accepted. -/
def lastContact (log : List Event) (w : WorkerID) : Option (ℕ × Time) :=
  (log.filterMap (Event.contact w)).getLast?

/-- The worker was heard of in the term. -/
def Heard (log : List Event) (epoch : ℕ) (w : WorkerID) : Prop :=
  ∃ time, .contacted w epoch time ∈ log

/-- The last contact with the worker is at least the timeout old. -/
def Silent (cfg : Config) (log : List Event) (w : WorkerID) (now : Time) : Prop :=
  ∀ epoch time, lastContact log w = some (epoch, time) → time + cfg.workerTimeout ≤ now

/-- The worker is silent, or was not heard of in this term. -/
def Quiet (cfg : Config) (log : List Event) (epoch : ℕ) (w : WorkerID) (now : Time) : Prop :=
  Silent cfg log w now ∨ ¬ Heard log epoch w

/-- The task reported a terminal status of the attempt. -/
def Reported (log : List Event) (j : JobID) (t : TaskID) (attempt : AttemptID) : Prop :=
  ∃ req, .reported req ∈ log ∧ req.jobID = j ∧ req.taskID = t ∧ req.attemptID = attempt ∧
    req.status.isTerminal = true

section Log

variable {cfg : Config} {log es : List Event} {w v : WorkerID} {epoch : ℕ} {now later : Time}

theorem eq_of_contact {e : Event} {time : Time} (h : e.contact w = some (epoch, time)) :
    e = .contacted w epoch time := by
  cases e with
  | contacted v epoch' time' =>
    rw [Event.contact] at h
    split at h
    · next hv =>
      cases h
      rw [hv]
    · cases h
  | _ => cases h

theorem mem_of_lastContact {time : Time} (h : lastContact log w = some (epoch, time)) :
    .contacted w epoch time ∈ log := by
  obtain ⟨e, he, hcontact⟩ := mem_filterMap.mp (mem_of_getLast? h)
  exact eq_of_contact hcontact ▸ he

theorem lastContact_append_self (log : List Event) (w : WorkerID) (epoch : ℕ) (time : Time) :
    lastContact (log ++ [.contacted w epoch time]) w = some (epoch, time) := by
  simp [lastContact, Event.contact]

/-- Nothing in the events is a contact with the worker. -/
def NoContact (es : List Event) (w : WorkerID) : Prop := ∀ e ∈ es, e.contact w = none

theorem NoContact.of_ne (hne : v ≠ w) (epoch : ℕ) (time : Time) :
    NoContact [.contacted v epoch time] w := by
  intro e he
  rw [mem_singleton.mp he]
  exact if_neg hne

theorem lastContact_append (hes : NoContact es w) :
    lastContact (log ++ es) w = lastContact log w := by
  have hnil : es.filterMap (Event.contact w) = [] := filterMap_eq_nil_iff.mpr hes
  rw [lastContact, filterMap_append, hnil, append_nil, lastContact]

theorem heard_append (hes : NoContact es w) : Heard (log ++ es) epoch w ↔ Heard log epoch w := by
  constructor
  · rintro ⟨time, hmem⟩
    rcases mem_append.mp hmem with hold | hnew
    · exact ⟨time, hold⟩
    · have hnone := hes _ hnew
      rw [Event.contact, if_pos rfl] at hnone
      cases hnone
  · rintro ⟨time, hmem⟩
    exact ⟨time, mem_append_left _ hmem⟩

theorem Quiet.mono (h : Quiet cfg log epoch w now) (hle : now ≤ later) :
    Quiet cfg log epoch w later :=
  h.imp_left fun hsilent e time hlast => (hsilent e time hlast).trans hle

theorem Quiet.append (h : Quiet cfg log epoch w now) (hes : NoContact es w) (hle : now ≤ later) :
    Quiet cfg (log ++ es) epoch w later := by
  rcases h with hsilent | hunheard
  · refine .inl fun e time hlast => (hsilent e time ?_).trans hle
    rwa [lastContact_append hes] at hlast
  · exact .inr fun hheard => hunheard ((heard_append hes).mp hheard)

theorem Reported.append {j : JobID} {t : TaskID} {attempt : AttemptID}
    (h : Reported log j t attempt) (es : List Event) : Reported (log ++ es) j t attempt := by
  obtain ⟨req, hmem, hreq⟩ := h
  exact ⟨req, mem_append_left _ hmem, hreq⟩

end Log

/-! ## What a step does to assignments and contacts -/

/-- Another version of the assignment of an attempt. -/
def TaskAssignmentMap.SameAttempt (old new : TaskAssignmentMap) : Prop :=
  new.attemptID = old.attemptID ∧ new.epochID = old.epochID ∧ new.assignments = old.assignments

theorem assignment_reported {s : State} {req : TaskStatusRequest} {r : Ref}
    {found new : TaskAssignmentMap} {charged : Bool} {j : JobID}
    (haccept : acceptTaskStatus s req = .ok (r, found))
    (hnew : Function.update s.store.assignments req.jobID
      (some { found with recoveryAttemptCharged := charged }) j = some new) :
    ∃ old, s.store.assignments j = some old ∧ old.SameAttempt new := by
  rcases eq_or_ne j req.jobID with rfl | hne
  · rw [update_self] at hnew
    cases hnew
    exact ⟨found, (acceptTaskStatus_assignment haccept).1, rfl, rfl, rfl⟩
  · rw [update_of_ne hne] at hnew
    exact ⟨new, hnew, rfl, rfl, rfl⟩

theorem Event.Ordinary.noContact {run : Option Thread} {es : List Event}
    (hes : ∀ e ∈ es, e.Ordinary run) (w : WorkerID) : NoContact es w := by
  intro e he
  cases e with
  | contacted => exact absurd (hes _ he) id
  | _ => rfl

/-! ## Epochs -/

/-- The epochs of contacts and assignments, against those of the store, the term and a
recovery. -/
structure Dated (T : Tasks) (log : List Event) : Prop where
  contacted : ∀ w epoch time, .contacted w epoch time ∈ log → epoch ≤ T.storedEpoch
  assigned : ∀ j found, T.assignments j = some found → found.epochID ≤ T.storedEpoch
  term : T.recovered = true → T.epoch ≤ T.storedEpoch ∧
    ∀ j found, T.assignments j = some found → found.epochID ≤ T.epoch
  recovering : ∀ epoch, T.recovering = some epoch → T.recovered = false ∧
    epoch ≤ T.storedEpoch ∧ (∀ w e time, .contacted w e time ∈ log → e < epoch) ∧
    ∀ j found, T.assignments j = some found → found.epochID < epoch

namespace Dated

variable {cfg : Config} {a : Action} {o : Oracle} {run : Option Thread} {s : State} {T T' : Tasks}
  {log es : List Event}

theorem mem_of_noContact (hes : ∀ w, NoContact es w) {w : WorkerID} {epoch : ℕ} {time : Time}
    (h : .contacted w epoch time ∈ log ++ es) : .contacted w epoch time ∈ log := by
  rcases mem_append.mp h with hold | hnew
  · exact hold
  · have hnone := hes w _ hnew
    rw [Event.contact, if_pos rfl] at hnone
    cases hnone

/-- A step within a term that neither deploys nor is a contact. -/
theorem keep (hs : Dated T log) (hrecovered : T'.recovered = T.recovered)
    (hepoch : T'.epoch = T.epoch) (hstored : T'.storedEpoch = T.storedEpoch)
    (hrecovering : T'.recovering = T.recovering) (hassigned : ∀ j new, T'.assignments j = some new →
      ∃ old, T.assignments j = some old ∧ old.SameAttempt new)
    (hes : ∀ w, NoContact es w) : Dated T' (log ++ es) where
  contacted := by
    intro w epoch time hmem
    rw [hstored]
    exact hs.contacted w epoch time (mem_of_noContact hes hmem)
  assigned := by
    intro j new hnew
    obtain ⟨old, hold, -, hsame, -⟩ := hassigned j new hnew
    rw [hstored, hsame]
    exact hs.assigned j old hold
  term := by
    intro hrec
    rw [hrecovered] at hrec
    rw [hepoch, hstored]
    refine ⟨(hs.term hrec).1, fun j new hnew => ?_⟩
    obtain ⟨old, hold, -, hsame, -⟩ := hassigned j new hnew
    rw [hsame]
    exact (hs.term hrec).2 j old hold
  recovering := by
    intro epoch hrec
    rw [hrecovering] at hrec
    obtain ⟨hdown, hle, hcontacts, hassignments⟩ := hs.recovering epoch hrec
    rw [hrecovered, hstored]
    refine ⟨hdown, hle, fun w e time hmem => ?_, fun j new hnew => ?_⟩
    · exact hcontacts w e time (mem_of_noContact hes hmem)
    · obtain ⟨old, hold, -, hsame, -⟩ := hassigned j new hnew
      rw [hsame]
      exact hassignments j old hold

/-- A contact is one of the present term. -/
theorem contact (hs : Dated T log) (hrec : T.recovered = true)
    (ws : GoMap WorkerID WorkerMeta) (w : WorkerID) (time : Time) :
    Dated { T with workers := ws } (log ++ [.contacted w T.epoch time]) where
  contacted := by
    intro v epoch time' hmem
    rcases mem_append.mp hmem with hold | hnew
    · exact hs.contacted v epoch time' hold
    · cases mem_singleton.mp hnew
      exact (hs.term hrec).1
  assigned := hs.assigned
  term := hs.term
  recovering := fun epoch hrecovering =>
    nomatch hrec.symm.trans (hs.recovering epoch hrecovering).1

theorem taskMove (hs : Dated s.tasks s.log) (h : TaskMove cfg a o run s T es) :
    Dated T (s.log ++ es) := by
  cases h with
  | same hes =>
    exact hs.keep rfl rfl rfl rfl (fun j new h => ⟨new, h, rfl, rfl, rfl⟩)
      (Event.Ordinary.noContact hes)
  | reported req r found charged haccept =>
    refine hs.keep rfl rfl rfl rfl (fun j new h => assignment_reported haccept h) fun w e he => ?_
    rw [mem_singleton.mp he]
    rfl
  | lost | missing | workers | remove | putBack =>
    exact hs.keep rfl rfl rfl rfl (fun j new h => ⟨new, h, rfl, rfl, rfl⟩) (by rintro _ _ ⟨⟩)
  | deploy hready r p hrun hlive new hattempt hepoch =>
    have hrec : s.tasks.recovered = true := Flights.recovered_of_ready hready
    have hcases : ∀ j found, update s.store.assignments r.job (some new) j = some found →
        found.epochID = s.mem.epoch ∨ s.store.assignments j = some found := by
      intro j found hfound
      rcases eq_or_ne j r.job with rfl | hne
      · rw [update_self] at hfound
        cases hfound
        exact .inl hepoch
      · rw [update_of_ne hne] at hfound
        exact .inr hfound
    have hnone : ∀ generation boundary w,
        NoContact [.deployed r.job p.attemptID generation boundary] w := by
      intro generation boundary w e he
      rw [mem_singleton.mp he]
      rfl
    refine ⟨fun w epoch time hmem => ?_, fun j found hfound => ?_, fun _ => ⟨(hs.term hrec).1, ?_⟩,
      fun epoch hrecovering => by cases hrec.symm.trans (hs.recovering epoch hrecovering).1⟩
    · exact hs.contacted w epoch time (mem_of_noContact (hnone _ _) hmem)
    · rcases hcases j found hfound with hnew | hold
      · rw [hnew]
        exact (hs.term hrec).1
      · exact hs.assigned j found hold
    · intro j found hfound
      rcases hcases j found hfound with hnew | hold
      · exact hnew.le
      · exact (hs.term hrec).2 j found hold
  | register hready w | heartbeat hready w =>
    exact hs.contact (Flights.recovered_of_ready hready) _ w o.now
  | crash =>
    rw [append_nil]
    exact ⟨hs.contacted, hs.assigned, by simp, by simp⟩
  | startRecovery hdown epoch hepoch =>
    rw [append_nil]
    refine ⟨fun w e time hmem => (hs.contacted w e time hmem).trans hepoch.le,
      fun j found hfound => (hs.assigned j found hfound).trans hepoch.le,
      fun hrec => (by cases hdown.symm.trans hrec), ?_⟩
    rintro e ⟨⟩
    exact ⟨hdown, le_rfl, fun w e time hmem => (hs.contacted w e time hmem).trans_lt hepoch,
      fun j found hfound => (hs.assigned j found hfound).trans_lt hepoch⟩
  | failRecovery =>
    rw [append_nil]
    exact { hs with recovering := by simp }
  | recover ha epoch hrec =>
    rw [append_nil]
    have hrecovering : s.tasks.recovering = some epoch := by
      rw [State.tasks, hrec]
      rfl
    obtain ⟨-, hle, -, hassignments⟩ := hs.recovering epoch hrecovering
    exact ⟨hs.contacted, hs.assigned,
      fun _ => ⟨hle, fun j found hfound => (hassignments j found hfound).le⟩, by simp⟩

end Dated

/-! ## Workers -/

/-- What the coordinator remembers of its workers is what the log says. -/
structure Watched (cfg : Config) (T : Tasks) (log : List Event) (now : Time) : Prop where
  unheard : T.recovered = true → ∀ w worker, T.workers.lookup w = some worker →
    worker.lastHeartbeat = 0 → ¬ Heard log T.epoch w
  heard : T.recovered = true → ∀ w worker, T.workers.lookup w = some worker →
    worker.lastHeartbeat ≠ 0 → lastContact log w = some (T.epoch, worker.lastHeartbeat)
  lost : T.recovered = true → ∀ w, (T.workers.lookup w).all (·.lost) = true →
    Quiet cfg log T.epoch w now

namespace Watched

variable {cfg : Config} {a : Action} {o : Oracle} {run : Option Thread} {s : State} {T T' : Tasks}
  {log es : List Event} {w : WorkerID} {worker : WorkerMeta} {now later : Time}

section

variable (hs : Watched cfg T log now)
include hs

section

variable (hrec : T.recovered = true) (hworker : T.workers.lookup w = some worker)
include hrec hworker

/-- A worker that is not live is quiet. -/
theorem quiet
    (hlive : worker.live cfg later = false) : Quiet cfg log T.epoch w later := by
  rw [WorkerMeta.live, decide_eq_false_iff_not] at hlive
  by_cases hzero : worker.lastHeartbeat = 0
  · exact .inr (hs.unheard hrec w worker hworker hzero)
  · have hlast := hs.heard hrec w worker hworker hzero
    have hold : ¬ later - worker.lastHeartbeat < cfg.workerTimeout := fun h => hlive ⟨hzero, h⟩
    refine .inl fun epoch time h => ?_
    cases hlast.symm.trans h
    exact Int.add_le_of_le_sub_left (not_lt.mp hold)

/-- A live worker is not. -/
theorem not_quiet
    (hle : now ≤ later) (hlive : worker.live cfg later = true) : ¬ Quiet cfg log T.epoch w now := by
  obtain ⟨hzero, hrecent⟩ := of_decide_eq_true hlive
  have hlast := hs.heard hrec w worker hworker hzero
  rintro (hsilent | hunheard)
  · have hold := (hsilent _ _ hlast).trans hle
    exact absurd (Int.le_sub_left_of_add_le hold) (not_le.mpr hrecent)
  · exact hunheard ⟨_, mem_of_lastContact hlast⟩

end

/-- A step that leaves the workers alone. -/
theorem keep (hrecovered : T'.recovered = T.recovered) (hepoch : T'.epoch = T.epoch)
    (hworkers : T'.workers = T.workers) (hes : ∀ w, NoContact es w) (hle : now ≤ later) :
    Watched cfg T' (log ++ es) later where
  unheard := by
    intro hrec w worker hworker hzero
    rw [hrecovered] at hrec
    rw [hworkers] at hworker
    rw [hepoch, heard_append (hes w)]
    exact hs.unheard hrec w worker hworker hzero
  heard := by
    intro hrec w worker hworker hzero
    rw [hrecovered] at hrec
    rw [hworkers] at hworker
    rw [hepoch, lastContact_append (hes w)]
    exact hs.heard hrec w worker hworker hzero
  lost := by
    intro hrec w hlost
    rw [hrecovered] at hrec
    rw [hworkers] at hlost
    rw [hepoch]
    exact (hs.lost hrec w hlost).append (hes w) hle

/-- Workers stay as they were, or are found to be silent. -/
theorem workers {ws : GoMap WorkerID WorkerMeta}
    (hws : ∀ w, Option.Rel (fun old new => new.lastHeartbeat = old.lastHeartbeat ∧
      (new.lost = true → old.lost = true ∨ old.live cfg later = false))
        (T.workers.lookup w) (ws.lookup w)) (hle : now ≤ later) :
    Watched cfg { T with workers := ws } log later := by
  have hback : ∀ {w new}, ws.lookup w = some new →
      ∃ old, T.workers.lookup w = some old ∧ new.lastHeartbeat = old.lastHeartbeat := by
    intro w new hnew
    have hrel := hws w
    rw [hnew] at hrel
    cases hold : T.workers.lookup w with rw [hold] at hrel
    | none => cases hrel
    | some old =>
      cases hrel with
      | some h => exact ⟨old, rfl, h.1⟩
  refine ⟨fun hrec w new hnew hzero => ?_, fun hrec w new hnew hzero => ?_, fun hrec w hlost => ?_⟩
  · obtain ⟨old, hold, hbeat⟩ := hback hnew
    exact hs.unheard hrec w old hold (hbeat ▸ hzero)
  · obtain ⟨old, hold, hbeat⟩ := hback hnew
    rw [hbeat] at hzero ⊢
    exact hs.heard hrec w old hold hzero
  · have hrel := hws w
    cases hold : T.workers.lookup w with
    | none =>
      exact (hs.lost hrec w (by rw [hold]; rfl)).mono hle
    | some old =>
      rw [hold] at hrel
      cases hnew : ws.lookup w with
      | none => exact nomatch hnew ▸ hrel
      | some new =>
        rw [hnew] at hrel hlost
        cases hrel with
        | some h =>
          rcases h.2 hlost with hlost' | hsilent
          · exact (hs.lost hrec w (by rw [hold]; exact hlost')).mono hle
          · exact hs.quiet hrec hold hsilent

/-- A worker that is not live is removed. -/
theorem remove (hle : now ≤ later)
    (hlive : ∀ worker, T.workers.lookup w = some worker → worker.live cfg later = false) :
    Watched cfg { T with workers := T.workers.erase w } log later where
  unheard := by
    intro hrec v worker hworker
    rcases eq_or_ne v w with rfl | hne
    · dsimp only at hworker
      rw [lookup_erase] at hworker
      cases hworker
    · dsimp only at hworker
      rw [lookup_erase_ne hne] at hworker
      exact hs.unheard hrec v worker hworker
  heard := by
    intro hrec v worker hworker
    rcases eq_or_ne v w with rfl | hne
    · dsimp only at hworker
      rw [lookup_erase] at hworker
      cases hworker
    · dsimp only at hworker
      rw [lookup_erase_ne hne] at hworker
      exact hs.heard hrec v worker hworker
  lost := by
    intro hrec v hlost
    rcases eq_or_ne v w with rfl | hne
    · cases hworker : T.workers.lookup v with
      | none => exact (hs.lost hrec v (by rw [hworker]; rfl)).mono hle
      | some worker => exact hs.quiet hrec hworker (hlive worker hworker)
    · dsimp only at hlost
      rw [lookup_erase_ne hne] at hlost
      exact (hs.lost hrec v hlost).mono hle

/-- A contact is noted. -/
theorem contact (hle : now ≤ later) (hpos : 0 < later) {new : WorkerMeta}
    (hlast : new.lastHeartbeat = later) (hlost : new.lost = false) :
    Watched cfg { T with workers := T.workers.insert w new }
      (log ++ [.contacted w T.epoch later]) later where
  unheard := by
    intro hrec v worker hworker hzero
    rcases eq_or_ne v w with rfl | hne
    · rw [lookup_insert] at hworker
      cases hworker
      exact absurd (hlast.symm.trans hzero) hpos.ne'
    · rw [lookup_insert_ne hne] at hworker
      rw [heard_append (.of_ne hne.symm _ _)]
      exact hs.unheard hrec v worker hworker hzero
  heard := by
    intro hrec v worker hworker hzero
    rcases eq_or_ne v w with rfl | hne
    · rw [lookup_insert] at hworker
      cases hworker
      rw [hlast, lastContact_append_self]
    · rw [lookup_insert_ne hne] at hworker
      rw [lastContact_append (.of_ne hne.symm _ _)]
      exact hs.heard hrec v worker hworker hzero
  lost := by
    intro hrec v hall
    rcases eq_or_ne v w with rfl | hne
    · rw [lookup_insert, Option.all_some, hlost] at hall
      cases hall
    · rw [lookup_insert_ne hne] at hall
      exact (hs.lost hrec v hall).append (.of_ne hne.symm _ _) hle

end

theorem taskMove (hs : Watched cfg s.tasks s.log now) (hdated : Dated s.tasks s.log)
    (hremove : ∀ w, a = .removeWorker w → ∀ worker, s.mem.workers.lookup w = some worker →
      worker.live cfg o.now = false)
    (hdeleted : ∀ w worker, run = some (.removeWorker w worker) → o.written = true)
    (hle : now ≤ o.now) (hpos : 0 < o.now) (h : TaskMove cfg a o run s T es) :
    Watched cfg T (s.log ++ es) o.now := by
  cases h with
  | same hes => exact hs.keep rfl rfl rfl (Event.Ordinary.noContact hes) hle
  | reported | deploy =>
    refine hs.keep rfl rfl rfl (fun w e he => ?_) hle
    rw [mem_singleton.mp he]
    rfl
  | lost | missing | startRecovery | failRecovery => exact hs.keep rfl rfl rfl nofun hle
  | workers ws hws =>
    rw [append_nil]
    exact hs.workers hws hle
  | register _ _ _ _ _ _ hlast hlost | heartbeat _ _ _ _ _ _ hlast hlost =>
    exact hs.contact hle hpos hlast hlost
  | remove w ha =>
    rw [append_nil]
    exact hs.remove hle (hremove w ha)
  | putBack w worker hrun hwritten => exact nomatch hwritten.symm.trans (hdeleted w worker hrun)
  | crash =>
    exact ⟨nofun, nofun, nofun⟩
  | recover ha epoch hrec ws hws =>
    rw [append_nil]
    have hrecovering : s.tasks.recovering = some epoch := by
      rw [State.tasks, hrec]
      rfl
    have hunheard : ∀ w, ¬ Heard s.log epoch w := by
      rintro w ⟨time, hmem⟩
      exact lt_irrefl _ ((hdated.recovering epoch hrecovering).2.2.1 w epoch time hmem)
    refine ⟨fun _ w _ _ _ => hunheard w, fun _ w worker hworker hzero => ?_,
      fun _ w _ => .inr (hunheard w)⟩
    exact absurd (hws w worker hworker) hzero

end Watched

end Wire.Coordinator
