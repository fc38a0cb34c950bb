import Mitosis.Database

namespace Mitosis
set_option autoImplicit true

/-- The statements that only read the database. -/
inductive Select where
  | user (id : UserId)
  | workers
  | worker (id : WorkerId)
  | workerByUuid (uuid : Uuid)
  | activeTasksOf (id : WorkerId) (tags : List String)
  | eligibleWorkers (test : RoleTest) (groupId : GroupId) (tags : List String)
  | commonGroup (userId : UserId) (id : WorkerId) (workerRoles : List GroupWorkerRole)
      (userRoles : List UserGroupRole)
  | task (id : TaskId)
  | group (id : GroupId)
  | groupWorker (groupId : GroupId) (id : WorkerId)
  | pendingTask (uuid : Uuid)
  | activeByUuid (uuid : Uuid)
  | archivedByUuid (uuid : Uuid)
  | userGroup (userId : UserId) (name : Option String)
  | userGroupRole (userId : UserId) (groupId : GroupId)
  | roleByName (userId : UserId) (name : String)
  | groups (names : List String)

namespace Select

abbrev Ret : Select → Type
  | user _ => Option User
  | workers => List (WorkerId × List String)
  | worker _ => Option Worker
  | workerByUuid _ => Option (WorkerId × Worker)
  | activeTasksOf _ _ => List (TaskId × Int)
  | eligibleWorkers _ _ _ => List WorkerId
  | commonGroup _ _ _ _ => Option (String × GroupWorkerRole)
  | task _ => Option ActiveTask
  | group _ => Option Group
  | groupWorker _ _ => Option GroupWorkerRole
  | pendingTask _ => Option (TaskId × ActiveTask)
  | activeByUuid _ => Option (TaskId × ActiveTask)
  | archivedByUuid _ => Option (TaskId × ArchivedTask)
  | userGroup _ _ => Option (GroupId × UserGroupRole × String)
  | userGroupRole _ _ => Option UserGroupRole
  | roleByName _ _ => Option UserGroupRole
  | groups _ => List (GroupId × String)

def eval (db : Db) : (q : Select) → q.Ret
  | user id => db.users.find id
  | workers => db.workers.rows.map fun e => (e.1, e.2.tags)
  | worker id => db.workers.find id
  | workerByUuid uuid => db.findWorkerByUuid uuid
  | activeTasksOf id tags => db.activeTasksOf id tags
  | eligibleWorkers test groupId tags => db.eligibleWorkers test groupId tags
  | commonGroup userId id workerRoles userRoles =>
    db.findCommonGroup userId id workerRoles userRoles
  | task id => db.activeTasks.find id
  | group id => db.groups.find id
  | groupWorker groupId id =>
    (db.groupWorker.find (groupId, id)).filter fun role => role.toValue > 0
  | pendingTask uuid => db.findPendingTask uuid
  | activeByUuid uuid => db.findActiveByUuid uuid
  | archivedByUuid uuid => db.findArchivedByUuid uuid
  | userGroup userId name => db.findUserGroup userId name
  | userGroupRole userId groupId => db.userGroup.find (userId, groupId)
  | roleByName userId name => db.findRoleByName userId name
  | groups names => db.findGroups names

end Select

/-- The statements and transactions that write. The first argument of `pushBackTask`,
`reportState` and `setDownstream` is not part of their SQL: it is the worker that the
handler removes or acts for. -/
inductive Write where
  | insertWorker (uuid : Uuid) (creatorId : UserId) (tags labels : List String) (now : Instant)
  | insertGroupWorkers (roles : Table String GroupWorkerRole) (id : WorkerId)
  | pushBackTask (workerId : WorkerId) (id : TaskId) (now : Instant)
  | deleteWorker (id : WorkerId)
  | setGracefulShutdown (id : WorkerId)
  | touchWorker (id : WorkerId) (now : Instant)
  | assignTask (workerId : WorkerId) (id : TaskId) (now : Instant)
  | linkWorker (workerId : WorkerId) (id : TaskId) (now : Instant)
  | reportState (workerId : WorkerId) (id : TaskId) (state : TaskState) (now : Instant)
  | setDownstream (workerId : WorkerId) (id : TaskId) (uuid : Uuid) (now : Instant)
  | commitTask (workerId : WorkerId) (id : TaskId) (archived : ArchivedTask) (now : Instant)
  | addTaskCount (name : String) (now : Instant)
  | insertTask (task : ActiveTask)
  | triggerTask (id : TaskId) (now : Instant)
  | changeTask (userId : UserId) (uuid : Uuid) (req : ChangeTaskReq)
  | changeTaskLabels (userId : UserId) (uuid : Uuid) (labels : List String)
  | cancelTask (userId : UserId) (uuid : Uuid)
  | cancelTasksByFilter (filter : TaskFilter)
  | cancelTasksByUuids (userId : UserId) (uuids : List Uuid)
  | uploadArtifact (task : Db.StoredTask) (group : Group) (contentType : ArtifactContentType)
      (length : Int) (now : Instant)
  | shutdownWorkersByFilter (groupId : GroupId) (req : WorkersShutdownByFilterReq)
  | shutdownWorkersByUuids (userId : UserId) (uuids : List Uuid) (op : WorkerShutdownOp)
  | replaceWorkerTags (id : WorkerId) (tags : List String) (now : Instant)
  | replaceWorkerLabels (id : WorkerId) (labels : List String) (now : Instant)
  | upsertGroupWorkers (id : WorkerId) (relations : List (GroupId × GroupWorkerRole))
  | deleteGroupWorkers (id : WorkerId) (groups : List GroupId)

namespace Write
open Db (updateWorker updateTask)

abbrev Ret : Write → Type
  | insertWorker _ _ _ _ _ => WorkerId × Worker
  | insertGroupWorkers _ _ => Unit
  | pushBackTask _ _ _ => ActiveTask
  | deleteWorker _ => Unit
  | setGracefulShutdown _ => Worker
  | touchWorker _ _ => Worker
  | assignTask _ _ _ => Option ActiveTask
  | linkWorker _ _ _ => Worker
  | reportState _ _ _ _ => ActiveTask
  | setDownstream _ _ _ _ => ActiveTask
  | commitTask _ _ _ _ => WorkerState
  | addTaskCount _ _ => Option (GroupId × Group)
  | insertTask _ => TaskId × ActiveTask
  | triggerTask _ _ => ActiveTask
  | changeTask _ _ _ => TaskId × ActiveTask
  | changeTaskLabels _ _ _ => Unit
  | cancelTask _ _ => TaskId
  | cancelTasksByFilter _ => List TaskId
  | cancelTasksByUuids _ _ => List (TaskId × Uuid)
  | uploadArtifact _ _ _ _ _ => Bool × PresignedUrl
  | shutdownWorkersByFilter _ _ => Db.Shutdown
  | shutdownWorkersByUuids _ _ _ => Db.Shutdown × List Uuid
  | replaceWorkerTags _ _ _ => Worker
  | replaceWorkerLabels _ _ _ => Worker
  | upsertGroupWorkers _ _ => Unit
  | deleteGroupWorkers _ _ => Unit

/-- The effect of a write. The transactions that read the clock themselves use `clock`. -/
def run (clock : Instant) : (q : Write) → Stmt q.Ret
  | insertWorker uuid creatorId tags labels now => Db.insertWorker uuid creatorId tags labels now
  | insertGroupWorkers roles id => Db.insertGroupWorkers roles id
  | pushBackTask _ id now => updateTask id (Db.pushedBack now)
  | deleteWorker id => fun db => .ok ((), db.withoutWorkers fun w => w = id)
  | setGracefulShutdown id => updateWorker id fun w => { w with state := .gracefulShutdown }
  | touchWorker id now => updateWorker id fun w => { w with lastHeartbeat := now }
  | assignTask workerId id now => Db.assignTask workerId id now
  | linkWorker workerId id now =>
    updateWorker workerId fun w => { w with updatedAt := now, assignedTaskId := some id }
  | reportState _ id state now => updateTask id fun t => { t with state, updatedAt := now }
  | setDownstream _ id uuid now =>
    updateTask id fun t => { t with updatedAt := now, downstreamTaskUuid := some uuid }
  | commitTask workerId id archived now => Db.commitTask workerId id archived now
  | addTaskCount name now => Db.addTaskCount name now
  | insertTask task => Db.insertTask task
  | triggerTask id now => updateTask id fun t => { t with state := .ready, updatedAt := now }
  | changeTask userId uuid req => Db.changeTask userId uuid req clock
  | changeTaskLabels userId uuid labels => Db.changeTaskLabels userId uuid labels clock
  | cancelTask userId uuid => Db.cancelTask userId uuid clock
  | cancelTasksByFilter filter => Db.cancelTasksByFilter filter clock
  | cancelTasksByUuids userId uuids => Db.cancelTasksByUuids userId uuids clock
  | uploadArtifact task group contentType length now =>
    Db.uploadArtifact task group contentType length now
  | shutdownWorkersByFilter groupId req => Db.shutdownWorkersByFilter groupId req clock
  | shutdownWorkersByUuids userId uuids op => Db.shutdownWorkersByUuids userId uuids op clock
  | replaceWorkerTags id tags now => updateWorker id fun w => { w with tags, updatedAt := now }
  | replaceWorkerLabels id labels now =>
    updateWorker id fun w => { w with labels, updatedAt := now }
  | upsertGroupWorkers id relations => Db.upsertGroupWorkers id relations
  | deleteGroupWorkers id groups => Db.deleteGroupWorkers id groups

end Write
end Mitosis
