import Mitosis.Database
import Mitosis.Lib.Fallible
import Mitosis.Lib.Txn

namespace Mitosis
set_option autoImplicit true

namespace Cancel

inductive Row where
  | active (id : TaskId)
  | archived (id : TaskId)
  | worker (id : WorkerId)
  deriving DecidableEq

inductive Write where
  | addArchived (id : TaskId) (task : ArchivedTask)
  | dropActive (id : TaskId)
  | assign (workerId : WorkerId) (id : TaskId) (now : Instant)
  | link (workerId : WorkerId) (id : TaskId) (now : Instant)

namespace Write

def rows : Write → List Row
  | addArchived id _ => [.archived id]
  | dropActive id => [.active id]
  | assign _ id _ => [.active id]
  | link workerId _ _ => [.worker workerId]

def apply (db : Db) : Write → Db
  | addArchived id task => { db with archivedTasks := db.archivedTasks.set id task }
  | dropActive id => { db with activeTasks := db.activeTasks.erase id }
  | assign workerId id now => { db with activeTasks := db.activeTasks.update id fun task =>
      { task with assignedWorker := some workerId, updatedAt := now, state := .running } }
  | link workerId id now => { db with workers := db.workers.update workerId fun worker =>
      { worker with updatedAt := now, assignedTaskId := some id } }

end Write

instance : RowWrite Write Db Row where
  rows := Write.rows
  apply w db := w.apply db

/-- The task is added to `archived_tasks`, unless this violates one of its unique keys. -/
def insertArchived (id : TaskId) (task : ArchivedTask) (db : Db) : Answer Row Write Error Unit :=
  ⟨[.archived id], if db.archiveConflict id task then .error (.dbError .constraint)
    else .ok ((), [.addArchived id task])⟩

def deleteActive (id : TaskId) (db : Db) : Answer Row Write Error Unit :=
  match db.activeTasks.find id with
  | none => ⟨[], .ok ((), [])⟩
  | some _ => ⟨[.active id], .ok ((), [.dropActive id])⟩

/-- The conditional update of `fetch_task`, with the row that it returns. -/
def assignTask (workerId : WorkerId) (id : TaskId) (now : Instant) (db : Db) :
    Answer Row Write Error (Option ActiveTask) :=
  match db.activeTasks.find id with
  | none => ⟨[], .ok (none, [])⟩
  | some task =>
    if task.assignedWorker = none ∧ task.state = .ready then
      ⟨[.active id], .ok (some { task with
          assignedWorker := some workerId, updatedAt := now, state := .running },
        [.assign workerId id now])⟩
    else ⟨[], .ok (none, [])⟩

def linkWorker (workerId : WorkerId) (id : TaskId) (now : Instant) (db : Db) :
    Answer Row Write Error Unit :=
  match db.workers.find workerId with
  | none => ⟨[], .error (.dbError .recordNotUpdated)⟩
  | some _ => ⟨[.worker workerId], .ok ((), [.link workerId id now])⟩

structure Infra where
  txns : Txns Db Write
  clock : Instant

inductive Cmd where
  | readyTask (uuid : Uuid)
  | userGroupRole (userId : UserId) (groupId : GroupId)
  | now
  | start
  | commit
  | rollback
  | insertArchived (id : TaskId) (task : ArchivedTask)
  | deleteActive (id : TaskId)
  | removeTask (id : TaskId)
  | sendFetch (workerId : WorkerId)
  | recvFetch (workerId : WorkerId)
  | assignTask (workerId : WorkerId) (id : TaskId) (now : Instant)
  | linkWorker (workerId : WorkerId) (id : TaskId) (now : Instant)

/-- What the command of a step meets: whether the database or a channel fails, and the task that
the dispatcher pops from the worker's queue. -/
structure Chance where
  fault : Option DbErr
  popped : Option TaskId

namespace Cmd

abbrev Ret : Cmd → Type
  | readyTask _ => Option (TaskId × ActiveTask)
  | userGroupRole _ _ => Option UserGroupRole
  | now => Instant
  | recvFetch _ => Option TaskId
  | assignTask _ _ _ => Option ActiveTask
  | _ => Unit

abbrev Resp (c : Cmd) : Type := Except Error c.Ret

def executed (s : Infra) (i : Nat) (q : Db → Answer Row Write Error ρ) :
    Option (Except Error ρ × Infra) :=
  (s.txns.execute i q).map fun r => (r.1, { s with txns := r.2 })

def done (i : Nat) (popped : Option TaskId) (s : Infra) : (c : Cmd) → Option (c.Resp × Infra)
  | readyTask uuid => some (.ok ((s.txns.view i).findReadyTask uuid), s)
  | userGroupRole userId groupId => some (.ok ((s.txns.view i).userGroup.find (userId, groupId)), s)
  | now => some (.ok s.clock, s)
  | start => some (.ok (), { s with txns := s.txns.start i })
  | commit => some (.ok (), { s with txns := s.txns.commit i })
  | rollback => some (.ok (), { s with txns := s.txns.rollback i })
  | insertArchived id task => executed s i (Cancel.insertArchived id task)
  | deleteActive id => executed s i (Cancel.deleteActive id)
  | removeTask _ => some (.ok (), s)
  | sendFetch _ => some (.ok (), s)
  | recvFetch _ => some (.ok popped, s)
  | assignTask workerId id time => executed s i (Cancel.assignTask workerId id time)
  | linkWorker workerId id time => executed s i (Cancel.linkWorker workerId id time)

/-- The command where the database or a channel fails. A transaction that cannot be committed is
rolled back. -/
def failed (i : Nat) (e : DbErr) (s : Infra) : (c : Cmd) → c.Resp × Infra
  | now => (.ok s.clock, s)
  | commit => (.error (.dbError e), { s with txns := s.txns.rollback i })
  | rollback => (.ok (), { s with txns := s.txns.rollback i })
  | removeTask _ => (.error (.custom "send remove task failed"), s)
  | sendFetch _ => (.error (.custom "send fetch task failed"), s)
  | recvFetch _ => (.error (.custom "recv fetch task failed: RecvError(())"), s)
  | _ => (.error (.dbError e), s)

def exec (i : Nat) (chance : Chance) (s : Infra) (c : Cmd) : Option (c.Resp × Infra) :=
  match chance.fault with
  | some e => some (c.failed i e s)
  | none => c.done i chance.popped s

end Cmd

abbrev Service (α : Type) : Type := Fallible Cmd Cmd.Ret Error α

namespace Service
open Fallible (attempt fail okOr)

def issue (c : Cmd) : Service c.Ret := Fallible.issue c

def transaction (p : Service α) : Service α := do
  issue .start
  match ← attempt p with
  | .ok a =>
    issue .commit
    return a
  | .error e =>
    issue .rollback
    fail e

def archiveReady (userId : UserId) (uuid : Uuid) : Service TaskId := do
  let task ← issue (.readyTask uuid)
  let (id, task) ← okOr (Db.taskNotFound uuid) task
  let role ← issue (.userGroupRole userId task.groupId)
  let role ← okOr (.apiError (.invalidRequest "User is not in the group")) role
  if role = .read then fail (.authError .permissionDenied)
  else
    let now ← issue .now
    issue (.insertArchived id (Db.cancelledTask now task))
    issue (.deleteActive id)
    return id

def userCancelTask (userId : UserId) (uuid : Uuid) : Service Unit := do
  let id ← transaction (archiveReady userId uuid)
  let _ ← attempt (issue (.removeTask id))
  return ()

/-- One iteration of the loop of `fetch_task`. -/
def fetchTask (workerId : WorkerId) : Service (Flow (Option WorkerTaskResp)) := do
  issue (.sendFetch workerId)
  match ← issue (.recvFetch workerId) with
  | none => return .done none
  | some id =>
    let now ← issue .now
    match ← issue (.assignTask workerId id now) with
    | none => return .again
    | some task =>
      issue (.linkWorker workerId id now)
      return .done (some {
        id
        uuid := task.uuid
        timeout := asU64 task.timeout
        upstreamTaskUuid := task.upstreamTaskUuid
        spec := task.spec })

end Service

inductive Call where
  | userCancelTask (userId : UserId) (uuid : Uuid)
  | fetchTask (workerId : WorkerId)

inductive Reply where
  | cancelled
  | fetched (task : Option WorkerTaskResp)
  deriving DecidableEq

def Service.loop (p : Service (Flow (Option WorkerTaskResp))) :
    Prog Cmd Cmd.Resp (Flow (Except Error Reply)) :=
  Prog.bind (β := Flow (Except Error Reply)) p fun
    | .error e => .ret (.done (.error e))
    | .ok .again => .ret .again
    | .ok (.done task) => .ret (.done (.ok (.fetched task)))

def program : Call → Prog Cmd Cmd.Resp (Flow (Except Error Reply))
  | .userCancelTask userId uuid =>
    Fallible.once (fun _ => .cancelled) (Service.userCancelTask userId uuid)
  | .fetchTask workerId => (Service.fetchTask workerId).loop

/-- Time passes, and the roles of the users change. -/
inductive Env where
  | tick
  | roles (userGroup : Table (UserId × GroupId) UserGroupRole)

def Env.run (s : Infra) : Env → Infra
  | .tick => { s with clock := s.clock + 1 }
  | .roles userGroup =>
    { s with txns := { s.txns with committed := { s.txns.committed with userGroup } } }

def system : System Infra Cmd Cmd.Resp Call (Except Error Reply) Chance Env where
  program := program
  exec := Cmd.exec
  env e s := some (e.run s)

abbrev State := Sessions Infra Cmd Cmd.Resp Call (Except Error Reply)

def initial (db : Db) (clock : Instant) : State := ⟨⟨⟨db, .empty⟩, clock⟩, [], []⟩

end Cancel
end Mitosis
