import Wire.Coordinator.Scheduler

/-!
# Workers coming and going

Registration, heartbeats, expiry and removal of workers: `registerWorker` up to the
reconciliation of its tasks (`State.missingTask` is the rest, task by task), `HandleHeartbeat`,
`expireWorkersLocked` and `RemoveWorker`.  A heartbeat carries the slots that are free on the
worker, whatever the coordinator's own count of them was.
-/

namespace Wire.Coordinator

namespace State

def setWorker (s : State) (w : WorkerID) (worker : WorkerMeta) : State :=
  { s with mem := { s.mem with workers := s.mem.workers.insert w worker } }

def dropWorker (s : State) (w : WorkerID) : State :=
  { s with mem := { s.mem with workers := s.mem.workers.erase w } }

def storeWorkers (s : State) (workers : GoMap WorkerID WorkerMeta) : State :=
  { s with store := { s.store with workers } }

/-- `registerWorker`, up to the reconciliation. -/
def registerWorker (o : Oracle) (s : State) (w : WorkerID) (worker : WorkerMeta)
    (highestSeenEpoch : ℕ) : State :=
  if s.mem.ready ∧ highestSeenEpoch ≤ s.mem.epoch ∧ o.written then
    let registered :=
      { worker with lastHeartbeat := o.now, lost := false, rpcPeerEpoch := s.mem.epoch }
    ((s.storeWorkers (s.store.workers.insert w registered)).setWorker w registered).record
      [.contacted w s.mem.epoch o.now]
  else s

/-- `HandleHeartbeat`, over the connection `peer` if it is known. -/
def heartbeat (cfg : Config) (o : Oracle) (s : State) (w : WorkerID) (epoch : ℕ)
    (peer : Option ℕ) (slots : ℕ) : State :=
  match s.mem.workers.lookup w with
  | none => s
  | some worker =>
    if s.mem.ready ∧ epoch = s.mem.epoch ∧ (peer = none ∨ worker.rpcClient = peer) ∧
        worker.lost = false ∧ worker.live cfg o.now then
      (s.setWorker w
        { worker with lastHeartbeat := o.now, taskSlotsAvailable := slots }).record
          [.contacted w s.mem.epoch o.now]
    else s

/-- `expireWorkersLocked`. -/
def expireWorkers (cfg : Config) (o : Oracle) (s : State) : State :=
  if s.mem.ready then
    { s with mem := { s.mem with workers := s.mem.workers.mapValues fun worker =>
      if worker.lost = false ∧ ¬ worker.live cfg o.now then
        { worker with lost := true, taskSlotsAvailable := 0 }
      else worker } }
  else s

/-- The session of a worker ended. -/
def disconnectWorker (s : State) (w : WorkerID) : State :=
  match s.mem.workers.lookup w with
  | none => s
  | some worker => s.setWorker w { worker with rpcClient := none }

/-- A deployment or a terminal report changes the count of free slots. -/
def countSlots (s : State) (w : WorkerID) (slots : ℕ) : State :=
  match s.mem.workers.lookup w with
  | none => s
  | some worker => s.setWorker w { worker with taskSlotsAvailable := slots }

/-- `RemoveWorker`, up to its write. -/
def removeWorker (s : State) (w : WorkerID) : State :=
  match s.mem.workers.lookup w with
  | none => s
  | some worker => (s.dropWorker w).spawn (.removeWorker w worker)

/-- `RemoveWorker`: a worker that could not be deleted from the store is put back. -/
def deleteWorker (o : Oracle) (s : State) (w : WorkerID) (worker : WorkerMeta) : State :=
  if o.written then s.storeWorkers (s.store.workers.erase w)
  else s.setWorker w worker

/-- The workers of the store as a recovery finds them: not heard of. -/
def recoveredWorkers (s : State) : GoMap WorkerID WorkerMeta :=
  s.store.workers.mapValues fun worker =>
    { worker with lastHeartbeat := 0, lost := false, rpcClient := none, rpcPeerEpoch := 0 }

end State

end Wire.Coordinator
