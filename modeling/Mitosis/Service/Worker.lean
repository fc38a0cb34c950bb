import Mitosis.Lib.Pool
import Mitosis.Service.Task

namespace Mitosis
set_option autoImplicit true

namespace Service

def setupWorkerQueues (id : WorkerId) (tags : List String) : Service Unit := do
  sendHeartbeat (.heartbeat id) "send register worker failed"
  sendTask (.registerWorker id) "send register worker failed"
  let tasks ← select (.activeTasksOf id tags)
  sendTask (.addTasks id tasks) "send add tasks failed"

def parseGroup (g : String) : Option (String × GroupWorkerRole) :=
  match splitChar ':' g with
  | [name] => some (name, .write)
  | [name, role] => some (name, (GroupWorkerRole.fromStr role).getD .write)
  | _ => none

def registerWorker (creatorId : UserId) (tags labels groups : List String) : Service Uuid := do
  let uuid ← newUuid
  let now ← now
  let (id, worker) ← write (.insertWorker uuid creatorId tags labels now)
  let user ← select (.user creatorId)
  let user ← okOr (.apiError (.notFound "User not found")) user
  let roles := (groups.filterMap parseGroup).foldl (fun t e => t.set e.1 e.2) Table.empty
  write (.insertGroupWorkers (roles.set user.username .admin) id)
  setupWorkerQueues id worker.tags
  return worker.workerId

def setupWorkers : List (WorkerId × List String) → Service Unit
  | [] => ok ()
  | (id, tags) :: workers => do
    setupWorkerQueues id tags
    setupWorkers workers

def restoreWorkers : Service Unit := do
  let workers ← select .workers
  setupWorkers workers

def pushBack (id : WorkerId) : Option TaskId → Service Unit
  | none => ok ()
  | some taskId => do
    let now ← now
    let task ← write (.pushBackTask id taskId now)
    let workers ← select (.eligibleWorkers .gtRead task.groupId task.tags)
    sendTask (.batchAddTask workers taskId task.priority) "send batch add task op failed"

def removeWorker (id : WorkerId) (worker : Worker) : Service Unit := do
  pushBack id worker.assignedTaskId
  write (.deleteWorker id)
  sendTask (.unregisterWorker id) "send remove worker op failed"
  sendHeartbeat (.unregisterWorker id) "send remove worker op failed"

def unregisterWorker (id : WorkerId) : Service Unit := do
  let worker ← select (.worker id)
  let worker ← okOr (.apiError (.notFound s!"Worker {id} not found")) worker
  removeWorker id worker

def findWorker (uuid : Uuid) : Service (WorkerId × Worker) := do
  let worker ← select (.workerByUuid uuid)
  okOr (.apiError (.notFound s!"Worker {uuid} not found")) worker

def shutdownWorker (id : WorkerId) (worker : Worker) : WorkerShutdownOp → Service Unit
  | .force => removeWorker id worker
  | .graceful =>
    if worker.assignedTaskId.isNone then removeWorker id worker
    else do
      let _ ← write (.setGracefulShutdown id)
      return ()

def removeWorkerByUuid (uuid : Uuid) (op : WorkerShutdownOp) : Service Unit := do
  let (id, worker) ← findWorker uuid
  shutdownWorker id worker op

def checkCommonGroup (userId : UserId) (id : WorkerId) (workerRoles : List GroupWorkerRole)
    (userRoles : List UserGroupRole) : Service Unit := do
  let group ← select (.commonGroup userId id workerRoles userRoles)
  let _ ← okOr (.apiError (.authError .permissionDenied)) group
  return ()

def userRemoveWorkerByUuid (userId : UserId) (uuid : Uuid) (op : WorkerShutdownOp) :
    Service Unit := do
  let (id, worker) ← findWorker uuid
  checkCommonGroup userId id [.admin] [.admin]
  shutdownWorker id worker op

def isRetryableError (e : Error) : Bool := e = .dbError .serialization

def updateWorker (id : WorkerId) (now : Instant) : Nat → Service Worker
  | 0 => fail (.custom "Retry limit reached for updating worker")
  | n + 1 => recover (write (.touchWorker id now)) fun e =>
    if !isRetryableError e || n = 0 then fail e else updateWorker id now n

def updateWorkerWithTransaction (id : WorkerId) : Service Worker := do
  let now ← now
  updateWorker id now 3

/-- The worker's task runs longer than its timeout and a grace period of 60 seconds. -/
def taskExpired (worker : Worker) : Service Bool := do
  match worker.assignedTaskId with
  | none => return false
  | some taskId =>
    match ← select (.task taskId) with
    | none => return false
    | some task =>
      if task.state = .running then
        let now ← now
        return decide ((now : Int) - task.updatedAt > asI64 (task.timeout + 60))
      else return false

def heartbeat (id : WorkerId) : Service Unit := do
  let worker ← updateWorkerWithTransaction id
  let expired ← taskExpired worker
  if expired then removeWorker id worker
  else sendHeartbeat (.heartbeat id) "send worker heartbeat failed"

/-- `HeartbeatQueue::handle_timeout` for the worker that it popped. -/
def handleTimeout (id : WorkerId) : Service Unit := do
  match ← select (.worker id) with
  | some worker => ignore (removeWorker id worker)
  | none => return ()

/-- The branch of `HeartbeatQueue::run` that calls `handle_timeout`. -/
def runTimeout (id : WorkerId) : Service Unit :=
  recover (handleTimeout id) fun _ => issue .cancelToken

/-- One iteration of the loop of `fetch_task`. -/
def fetchTask (workerId : WorkerId) : Service (Flow (Option WorkerTaskResp)) := do
  let rx ← recover (issue (.sendFetch workerId)) fun _ =>
    fail (.custom "send fetch task failed")
  let reply ← recover (issue (.recvFetch rx)) fun _ =>
    fail (.custom "recv fetch task failed: RecvError(())")
  match reply with
  | none => return .done none
  | some id =>
    let now ← now
    match ← write (.assignTask workerId id now) with
    | none => return .again
    | some task =>
      let _ ← write (.linkWorker workerId id now)
      return .done (some {
        id
        uuid := task.uuid
        timeout := asU64 task.timeout
        upstreamTaskUuid := task.upstreamTaskUuid
        spec := task.spec })

def reportSubmit (workerId : WorkerId) (taskId : TaskId) (task : ActiveTask)
    (req : SubmitTaskReq) (now : Instant) : Service Unit := do
  if task.state ≠ .finished ∧ task.state ≠ .cancelled then
    fail (.apiError (.invalidRequest "Task can not spawn new tasks"))
  else
    let user ← recover (select (.user task.creatorId)) fun _ => fail (.authError .wrongCredentials)
    let user ← okOr (.authError .wrongCredentials) user
    if user.state ≠ .active then fail (.authError .permissionDenied)
    else
      let group ← select (.group task.groupId)
      let group ← okOr (.apiError (.notFound "Group not found")) group
      if req.groupName ≠ group.groupName then
        fail (.apiError (.invalidRequest
          s!"Group name mismatch: expected '{group.groupName}', got '{req.groupName}'"))
      else
        let role ← select (.groupWorker task.groupId workerId)
        let _ ← okOr (.apiError (.authError .permissionDenied)) role
        let resp ← recover (workerSubmitPendingTask task.creatorId task.uuid req) fun e =>
          fail (.apiError e.toApiError)
        let _ ← write (.setDownstream workerId taskId resp.uuid now)
        return ()

def committedTask (task : ActiveTask) (res : TaskResultSpec) (workerUuid : Uuid)
    (now : Instant) : ArchivedTask where
  creatorId := task.creatorId
  groupId := task.groupId
  taskId := task.taskId
  uuid := task.uuid
  tags := task.tags
  labels := task.labels
  createdAt := task.createdAt
  updatedAt := now
  state := task.state
  assignedWorker := task.assignedWorker
  timeout := task.timeout
  priority := task.priority
  spec := task.spec
  result := some res
  upstreamTaskUuid := task.upstreamTaskUuid
  downstreamTaskUuid := task.downstreamTaskUuid
  reporterUuid := some workerUuid

def triggerDownstream : Option Uuid → Service Unit
  | none => ok ()
  | some uuid => workerTriggerPendingTask uuid

def unregisterGraceful (workerId : WorkerId) : WorkerState → Service Unit
  | .normal => ok ()
  | .gracefulShutdown => do
    sendTask (.unregisterWorker workerId)
      "Worker was requested to gracefully shutdown but failed to send op through channels"
    sendHeartbeat (.unregisterWorker workerId)
      "Worker was requested to gracefully shutdown but failed to send op through channels"

def reportCommit (workerId : WorkerId) (workerUuid : Uuid) (taskId : TaskId)
    (task : ActiveTask) (res : TaskResultSpec) (now : Instant) : Service Unit := do
  if task.state ≠ .finished ∧ task.state ≠ .cancelled then
    fail (.apiError (.invalidRequest "Task can not be marked as done"))
  else
    let workerState ← write (.commitTask workerId taskId (committedTask task res workerUuid now)
      now)
    ignore (removeTask taskId)
    triggerDownstream task.downstreamTaskUuid
    unregisterGraceful workerId workerState

def reportTask (workerId : WorkerId) (workerUuid : Uuid) (taskId : TaskId)
    (op : ReportTaskOp) : Service (Option PresignedUrl) := do
  let now ← now
  let task ← select (.task taskId)
  let task ← okOr (.apiError (.notFound s!"Task {taskId} not found")) task
  if task.assignedWorker ≠ some workerId then
    fail (.apiError (.notFound s!"Task {taskId} not found"))
  else
    match op with
    | .finish =>
      let _ ← write (.reportState workerId taskId .finished now)
      return none
    | .cancel =>
      let _ ← write (.reportState workerId taskId .cancelled now)
      return none
    | .submit req =>
      reportSubmit workerId taskId task req now
      return none
    | .commit res =>
      reportCommit workerId workerUuid taskId task res now
      return none
    | .upload contentType contentLength =>
      let (_, url) ← groupUploadArtifact (.active taskId task) contentType contentLength
      return some url

/-- Queue the tasks of force-removed workers for the workers that remain. -/
def reassignTasks : List (TaskId × ActiveTask) → Service Unit
  | [] => ok ()
  | (id, task) :: tasks => do
    let workers ← select (.eligibleWorkers .gtRead task.groupId task.tags)
    ignore (sendTask (.batchAddTask workers id task.priority) "")
    reassignTasks tasks

def unregisterWorkers : List WorkerId → Service Unit
  | [] => ok ()
  | id :: ids => do
    ignore (sendTask (.unregisterWorker id) "")
    ignore (sendHeartbeat (.unregisterWorker id) "")
    unregisterWorkers ids

def shutdownWorkersByFilter (userId : UserId) (req : WorkersShutdownByFilterReq) :
    Service WorkersShutdownByFilterResp := do
  let group ← select (.userGroup userId req.groupName)
  let (groupId, role, groupName) ← okOr (.authError .permissionDenied) group
  if role ≠ .admin then fail (.authError .permissionDenied)
  else
    let res ← write (.shutdownWorkersByFilter groupId req)
    reassignTasks res.tasksToReassign
    unregisterWorkers res.removedWorkerIds
    return ⟨res.shutdownCount, groupName⟩

def shutdownChunks (userId : UserId) (op : WorkerShutdownOp) :
    List (List Uuid) → Service (Db.Shutdown × List Uuid)
  | [] => ok (⟨0, [], []⟩, [])
  | chunk :: chunks => do
    let (res, found) ← write (.shutdownWorkersByUuids userId chunk op)
    let (rest, more) ← shutdownChunks userId op chunks
    return (⟨res.shutdownCount + rest.shutdownCount,
      res.tasksToReassign ++ rest.tasksToReassign,
      res.removedWorkerIds ++ rest.removedWorkerIds⟩, found ++ more)

def shutdownWorkersByUuids (userId : UserId) (uuids : List Uuid) (op : WorkerShutdownOp) :
    Service WorkersShutdownByUuidsResp := do
  if uuids.isEmpty then fail (.apiError (.invalidRequest "UUIDs list cannot be empty"))
  else
    let (res, found) ← shutdownChunks userId op (uuids.toChunks 1024)
    reassignTasks res.tasksToReassign
    unregisterWorkers res.removedWorkerIds
    return ⟨res.shutdownCount, uuids.filter fun uuid => uuid ∉ found⟩

def userReplaceWorkerTags (userId : UserId) (uuid : Uuid) (tags : List String) :
    Service Unit := do
  if tags.isEmpty then fail (.apiError (.invalidRequest "Empty tags"))
  else
    let (id, _) ← findWorker uuid
    checkCommonGroup userId id [.write, .admin] [.write, .admin]
    let now ← now
    let _ ← write (.replaceWorkerTags id tags now)
    return ()

def userReplaceWorkerLabels (userId : UserId) (uuid : Uuid) (labels : List String) :
    Service Unit := do
  if labels.isEmpty then fail (.apiError (.invalidRequest "Empty labels"))
  else
    let (id, _) ← findWorker uuid
    checkCommonGroup userId id [.write, .admin] [.write, .admin]
    let now ← now
    let _ ← write (.replaceWorkerLabels id labels now)
    return ()

def userUpdateWorkerGroups (userId : UserId) (uuid : Uuid)
    (relations : Table String GroupWorkerRole) : Service Unit := do
  if relations.rows.isEmpty then fail (.apiError (.invalidRequest "Empty group relations"))
  else
    let (id, _) ← findWorker uuid
    checkCommonGroup userId id [.admin] [.admin]
    let groups ← select (.groups relations.keys)
    if groups.length ≠ relations.keys.length then
      fail (.apiError (.invalidRequest "Some groups do not exist"))
    else
      write (.upsertGroupWorkers id (groups.filterMap fun e =>
        (relations.find e.2).map fun role => (e.1, role)))

def userRemoveWorkerGroups (userId : UserId) (uuid : Uuid) (groups : List String) :
    Service Unit := do
  if groups.isEmpty then fail (.apiError (.invalidRequest "Empty group names"))
  else
    let (id, _) ← findWorker uuid
    checkCommonGroup userId id [.admin] [.admin]
    let found ← select (.groups groups)
    if found.length ≠ groups.length then
      fail (.apiError (.invalidRequest "Some groups do not exist"))
    else write (.deleteGroupWorkers id (found.map Prod.fst))

end Service
end Mitosis
