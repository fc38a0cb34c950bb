import Mitosis.Lib.Recorded
import Mitosis.Service.Worker
import Mitosis.TaskQuery

namespace Mitosis
set_option autoImplicit true

namespace Tasks

/-- What a statement sets in the row of an active task. -/
inductive Change where
  | assign (workerId : WorkerId)
  | report (state : TaskState)
  | pushBack
  | trigger
  | downstream (uuid : Uuid)
  | columns (req : ChangeTaskReq)
  | labels (labels : List String)
  | touch

def Change.run (now : Instant) : Change → ActiveTask → ActiveTask
  | assign workerId, task =>
    { task with assignedWorker := some workerId, updatedAt := now, state := .running }
  | report state, task => { task with state, updatedAt := now }
  | pushBack, task => Db.pushedBack now task
  | trigger, task => { task with state := .ready, updatedAt := now }
  | downstream uuid, task => { task with updatedAt := now, downstreamTaskUuid := some uuid }
  | columns req, task => Db.changedTask req now task
  | labels ls, task => { task with updatedAt := now, labels := ls }
  | touch, task => { task with updatedAt := now }

inductive ArchivedChange where
  | labels (labels : List String)
  | touch

def ArchivedChange.run (now : Instant) : ArchivedChange → ArchivedTask → ArchivedTask
  | labels ls, task => { task with updatedAt := now, labels := ls }
  | touch, task => { task with updatedAt := now }

inductive WorkerChange where
  | link (taskId : Option TaskId) (now : Instant)
  | graceful
  | retire (now : Instant)
  | heartbeat (now : Instant)

def WorkerChange.run : WorkerChange → Worker → Worker
  | link taskId now, worker => { worker with updatedAt := now, assignedTaskId := taskId }
  | graceful, worker => { worker with state := .gracefulShutdown }
  | retire now, worker => { worker with state := .gracefulShutdown, updatedAt := now }
  | heartbeat now, worker => { worker with lastHeartbeat := now }

inductive Row where
  | active (id : TaskId)
  | archived (id : TaskId)
  | group (id : GroupId)
  | worker (id : WorkerId)
  deriving DecidableEq

/-- What a statement does to one row, or to the rows that it moves or deletes together. -/
inductive Write where
  | addCount (id : GroupId) (now : Instant)
  | addActive (id : TaskId) (task : ActiveTask)
  | change (id : TaskId) (c : Change) (now : Instant)
  | changeArchived (id : TaskId) (c : ArchivedChange) (now : Instant)
  | addArchived (id : TaskId) (task : ArchivedTask)
  | dropActive (id : TaskId)
  | archive (tasks : Table TaskId ArchivedTask)
  | setWorker (id : WorkerId) (c : WorkerChange)
  | dropWorkers (ids : List WorkerId)

namespace Write

def rows : Write → List Row
  | addCount id _ => [.group id]
  | addActive id _ => [.active id]
  | change id _ _ => [.active id]
  | changeArchived id _ _ => [.archived id]
  | addArchived id _ => [.archived id]
  | dropActive id => [.active id]
  | archive tasks => tasks.keys.flatMap fun id => [.active id, .archived id]
  | setWorker id _ => [.worker id]
  | dropWorkers ids => ids.map .worker

def apply (db : Db) : Write → Db
  | addCount id now => { db with groups := db.groups.update id fun group =>
      { group with taskCount := group.taskCount + 1, updatedAt := now } }
  | addActive id task => { db with activeTasks := db.activeTasks.set id task }
  | change id c now => { db with activeTasks := db.activeTasks.update id (c.run now) }
  | changeArchived id c now => { db with archivedTasks := db.archivedTasks.update id (c.run now) }
  | addArchived id task => { db with archivedTasks := db.archivedTasks.set id task }
  | dropActive id => { db with activeTasks := db.activeTasks.erase id }
  | archive tasks => { db with
      archivedTasks := db.archivedTasks.merge tasks
      activeTasks := db.activeTasks.deleteWhere fun id _ => (tasks.find id).isSome }
  | setWorker id c => { db with workers := db.workers.update id c.run }
  | dropWorkers ids => db.withoutWorkers fun id => id ∈ ids

end Write

instance : RowWrite Write Db Row where
  rows := Write.rows
  apply w db := w.apply db

def addTaskCount (name : String) (now : Instant) (db : Db) :
    Answer Row Write Error (Option (GroupId × Group)) :=
  match db.groups.findWhere fun _ group => group.groupName = name with
  | none => ⟨[], .ok (none, [])⟩
  | some (id, group) => ⟨[.group id],
      .ok (some (id, { group with taskCount := group.taskCount + 1, updatedAt := now }),
        [.addCount id now])⟩

def insertConflict (db : Db) (id : TaskId) (task : ActiveTask) : Bool :=
  (db.activeTasks.find id).isSome || (db.activeTasks.rows.any fun e =>
    decide (e.2.uuid = task.uuid ∨ e.2.groupId = task.groupId ∧ e.2.taskId = task.taskId)) ||
    (db.users.find task.creatorId).isNone || (db.groups.find task.groupId).isNone

def insertTask (id : TaskId) (task : ActiveTask) (db : Db) :
    Answer Row Write Error (TaskId × ActiveTask) :=
  ⟨[.active id], if insertConflict db id task then .error (.dbError .constraint)
    else .ok ((id, task), [.addActive id task])⟩

def changeTask (id : TaskId) (c : Change) (now : Instant) (db : Db) :
    Answer Row Write Error ActiveTask :=
  match db.activeTasks.find id with
  | none => ⟨[], .error (.dbError .recordNotUpdated)⟩
  | some task => ⟨[.active id], .ok (c.run now task, [.change id c now])⟩

def changeArchived (id : TaskId) (c : ArchivedChange) (now : Instant) (db : Db) :
    Answer Row Write Error ArchivedTask :=
  match db.archivedTasks.find id with
  | none => ⟨[], .error (.dbError .recordNotUpdated)⟩
  | some task => ⟨[.archived id], .ok (c.run now task, [.changeArchived id c now])⟩

/-- The conditional update of `fetch_task`, with the row that it returns. -/
def assignTask (workerId : WorkerId) (id : TaskId) (now : Instant) (db : Db) :
    Answer Row Write Error (Option ActiveTask) :=
  match db.activeTasks.find id with
  | none => ⟨[], .ok (none, [])⟩
  | some task =>
    if task.assignedWorker = none ∧ task.state = .ready then
      ⟨[.active id], .ok (some ((Change.assign workerId).run now task),
        [.change id (.assign workerId) now])⟩
    else ⟨[], .ok (none, [])⟩

/-- The tasks that a forced shutdown puts back. -/
inductive TaskSelection where
  | ids (ids : List TaskId)
  | assignedTo (groupId : GroupId) (req : WorkersShutdownByFilterReq)

def TaskSelection.selects (db : Db) (id : TaskId) (task : ActiveTask) : TaskSelection → Bool
  | ids l => id ∈ l
  | assignedTo groupId req => task.assignedWorker.any fun w =>
    (db.workers.find w).any (db.shutdownSelects groupId req w)

def pushBackTasks (sel : TaskSelection) (now : Instant) (db : Db) :
    Answer Row Write Error (List (TaskId × ActiveTask)) :=
  let tasks := db.activeTasks.select fun id task => sel.selects db id task
  ⟨tasks.keys.map .active,
    .ok ((tasks.mapRows (Db.pushedBack now)).rows, tasks.keys.map fun id => .change id .pushBack now)⟩

/-- The task is added to `archived_tasks`, unless this violates one of its unique keys. -/
def insertArchived (id : TaskId) (task : ArchivedTask) (db : Db) : Answer Row Write Error Unit :=
  ⟨[.archived id], if db.archiveConflict id task then .error (.dbError .constraint)
    else .ok ((), [.addArchived id task])⟩

def deleteActive (id : TaskId) (db : Db) : Answer Row Write Error Unit :=
  match db.activeTasks.find id with
  | none => ⟨[], .ok ((), [])⟩
  | some _ => ⟨[.active id], .ok ((), [.dropActive id])⟩

inductive CancelSelection where
  | filter (filter : TaskFilter)
  | uuids (userId : UserId) (uuids : List Uuid)

def CancelSelection.tasks (db : Db) : CancelSelection → Table TaskId ActiveTask
  | filter f => db.filteredTasks f
  | uuids userId us => db.cancellableTasks userId us

/-- The statement that deletes tasks and inserts their archived copies. The copies are what it
returns; the handlers use their ids and uuids. -/
def archiveTasks (sel : CancelSelection) (now : Instant) (db : Db) :
    Answer Row Write Error (Table TaskId ArchivedTask) :=
  let tasks := (sel.tasks db).mapRows (Db.cancelledTask now)
  ⟨tasks.keys.flatMap fun id => [.active id, .archived id],
    if tasks.rows.any fun e => db.archiveConflict e.1 e.2 then .error (.dbError .constraint)
    else .ok (tasks, [.archive tasks])⟩

def updateWorker (id : WorkerId) (c : WorkerChange) (db : Db) : Answer Row Write Error Worker :=
  match db.workers.find id with
  | none => ⟨[], .error (.dbError .recordNotUpdated)⟩
  | some worker => ⟨[.worker id], .ok (c.run worker, [.setWorker id c])⟩

/-- The workers that a statement deletes or retires. -/
inductive WorkerSelection where
  | ids (ids : List WorkerId)
  | all (groupId : GroupId) (req : WorkersShutdownByFilterReq)
  | idle (groupId : GroupId) (req : WorkersShutdownByFilterReq)
  | busy (groupId : GroupId) (req : WorkersShutdownByFilterReq)

def WorkerSelection.selects (db : Db) (id : WorkerId) (worker : Worker) : WorkerSelection → Bool
  | ids l => id ∈ l
  | all groupId req => db.shutdownSelects groupId req id worker
  | idle groupId req => db.shutdownSelects groupId req id worker && worker.assignedTaskId.isNone
  | busy groupId req => db.shutdownSelects groupId req id worker && worker.assignedTaskId.isSome

def WorkerSelection.keys (db : Db) (sel : WorkerSelection) : List WorkerId :=
  (db.workers.select fun id worker => sel.selects db id worker).keys

/-- Delete workers together with their rows in `group_worker`. -/
def deleteWorkers (sel : WorkerSelection) (db : Db) : Answer Row Write Error (List WorkerId) :=
  ⟨(sel.keys db).map .worker, .ok (sel.keys db, [.dropWorkers (sel.keys db)])⟩

def retireWorkers (sel : WorkerSelection) (now : Instant) (db : Db) :
    Answer Row Write Error (List WorkerId) :=
  ⟨(sel.keys db).map .worker,
    .ok (sel.keys db, (sel.keys db).map fun id => .setWorker id (.retire now))⟩

/-- The database with its sequences, the clock, and the operations that the dispatcher has been
sent, other than fetches. -/
structure Infra where
  txns : Txns Db Write
  nextTask : TaskId
  nextUuid : Uuid
  clock : Instant
  sent : List TaskDispatcherOp

/-- The SQL of `addTaskCount` uses only the name of the group. -/
inductive Cmd where
  | select (q : Select)
  | tasks (q : TaskSelect)
  | readyTask (uuid : Uuid)
  | administeredWorkers (userId : UserId) (uuids : List Uuid)
  | now
  | newUuid
  | start
  | commit
  | rollback
  | addTaskCount (req : SubmitTaskReq) (now : Instant)
  | insertTask (task : ActiveTask)
  | change (id : TaskId) (c : Change) (now : Instant)
  | changeArchived (id : TaskId) (c : ArchivedChange) (now : Instant)
  | assignTask (workerId : WorkerId) (id : TaskId) (now : Instant)
  | pushBackTasks (sel : TaskSelection) (now : Instant)
  | insertArchived (id : TaskId) (task : ArchivedTask)
  | deleteActive (id : TaskId)
  | archiveTasks (sel : CancelSelection) (now : Instant)
  | updateWorker (id : WorkerId) (c : WorkerChange)
  | deleteWorkers (sel : WorkerSelection)
  | retireWorkers (sel : WorkerSelection) (now : Instant)
  | sendTask (op : TaskDispatcherOp)
  | sendHeartbeat (op : HeartbeatOp)
  | sendFetch (workerId : WorkerId)
  | recvFetch (workerId : WorkerId)

/-- What the command of a step meets: whether the database or a channel fails, and the task that
the dispatcher pops from the worker's queue. -/
structure Chance where
  fault : Option DbErr
  popped : Option TaskId

namespace Cmd

abbrev Ret : Cmd → Type
  | select q => q.Ret
  | tasks q => q.Ret
  | readyTask _ => Option (TaskId × ActiveTask)
  | administeredWorkers _ _ => List (WorkerId × Worker)
  | now => Instant
  | newUuid => Uuid
  | addTaskCount _ _ => Option (GroupId × Group)
  | insertTask _ => TaskId × ActiveTask
  | change _ _ _ => ActiveTask
  | changeArchived _ _ _ => ArchivedTask
  | assignTask _ _ _ => Option ActiveTask
  | pushBackTasks _ _ => List (TaskId × ActiveTask)
  | archiveTasks _ _ => Table TaskId ArchivedTask
  | updateWorker _ _ => Worker
  | deleteWorkers _ => List WorkerId
  | retireWorkers _ _ => List WorkerId
  | recvFetch _ => Option TaskId
  | _ => Unit

abbrev Resp (c : Cmd) : Type := Except Error c.Ret

def executed (s : Infra) (i : Nat) (q : Db → Answer Row Write Error ρ) :
    Option (Except Error ρ × Infra) :=
  (s.txns.execute i q).map fun r => (r.1, { s with txns := r.2 })

/-- The command where nothing fails. The primary keys of new tasks are drawn from a sequence, which
no transaction gives back. -/
def done (i : Nat) (popped : Option TaskId) (s : Infra) : (c : Cmd) → Option (c.Resp × Infra)
  | select q => some (.ok (q.eval (s.txns.view i)), s)
  | tasks q => some (.ok (q.eval (s.txns.view i)), s)
  | readyTask uuid => some (.ok ((s.txns.view i).findReadyTask uuid), s)
  | administeredWorkers userId uuids =>
    some (.ok ((s.txns.view i).administeredWorkers userId uuids), s)
  | now => some (.ok s.clock, s)
  | newUuid => some (.ok s.nextUuid, { s with nextUuid := s.nextUuid + 1 })
  | start => some (.ok (), { s with txns := s.txns.start i })
  | commit => some (.ok (), { s with txns := s.txns.commit i })
  | rollback => some (.ok (), { s with txns := s.txns.rollback i })
  | addTaskCount req time => executed s i (Tasks.addTaskCount req.groupName time)
  | insertTask task =>
    executed { s with nextTask := s.nextTask + 1 } i (Tasks.insertTask s.nextTask task)
  | change id c time => executed s i (Tasks.changeTask id c time)
  | changeArchived id c time => executed s i (Tasks.changeArchived id c time)
  | assignTask workerId id time => executed s i (Tasks.assignTask workerId id time)
  | pushBackTasks sel time => executed s i (Tasks.pushBackTasks sel time)
  | insertArchived id task => executed s i (Tasks.insertArchived id task)
  | deleteActive id => executed s i (Tasks.deleteActive id)
  | archiveTasks sel time => executed s i (Tasks.archiveTasks sel time)
  | updateWorker id c => executed s i (Tasks.updateWorker id c)
  | deleteWorkers sel => executed s i (Tasks.deleteWorkers sel)
  | retireWorkers sel time => executed s i (Tasks.retireWorkers sel time)
  | sendTask op => some (.ok (), { s with sent := s.sent ++ [op] })
  | sendHeartbeat _ => some (.ok (), s)
  | sendFetch _ => some (.ok (), s)
  | recvFetch _ => some (.ok popped, s)

/-- The command where the database or a channel fails. A transaction that cannot be committed is
rolled back. -/
def failed (i : Nat) (e : DbErr) (s : Infra) : (c : Cmd) → c.Resp × Infra
  | now => (.ok s.clock, s)
  | newUuid => (.ok s.nextUuid, { s with nextUuid := s.nextUuid + 1 })
  | commit => (.error (.dbError e), { s with txns := s.txns.rollback i })
  | rollback => (.ok (), { s with txns := s.txns.rollback i })
  | sendTask _ => (.error Mitosis.Cmd.closed, s)
  | sendHeartbeat _ => (.error Mitosis.Cmd.closed, s)
  | sendFetch _ => (.error Mitosis.Cmd.closed, s)
  | recvFetch _ => (.error Mitosis.Cmd.closed, s)
  | _ => (.error (.dbError e), s)

def exec (i : Nat) (chance : Chance) (s : Infra) (c : Cmd) : Option (c.Resp × Infra) :=
  match chance.fault with
  | some e => some (c.failed i e s)
  | none => c.done i chance.popped s

end Cmd

abbrev Service (α : Type) : Type := Fallible Cmd Cmd.Ret Error α

namespace Service
open Fallible (attempt fail)

abbrev issue (c : Cmd) : Service c.Ret := Fallible.issue c

def transaction (p : Service α) : Service α :=
  Fallible.transaction (issue .start) (issue .commit) (issue .rollback) p

def select (q : Select) : Service q.Ret := issue (.select q)

/-- A send whose failure is reported with the given text. -/
def sent (c : Cmd) (msg : String) : Service c.Ret := do
  match ← attempt (issue c) with
  | .ok r => return r
  | .error _ => fail (.custom msg)

end Service
end Tasks
end Mitosis
