import Mitosis.Lib.Sessions
import Mitosis.Tasks

namespace Mitosis
set_option autoImplicit true

namespace Tasks

namespace Service
open Fallible (attempt fail okOr ofExcept)

def notFound (msg : String) : Error := .apiError (.notFound msg)

def countTask (req : SubmitTaskReq) (now : Instant) : Service (GroupId × Group) := do
  let group ← issue (.addTaskCount req now)
  okOr (notFound s!"User or group with name {req.groupName}") group

def batchAddTask (test : RoleTest) (id : TaskId) (task : ActiveTask) (msg : String) :
    Service Unit := do
  let workers ← select (.eligibleWorkers test task.groupId task.tags)
  sent (.sendTask (.batchAddTask workers id task.priority)) msg

def userSubmitTask (creatorId : UserId) (req : SubmitTaskReq) : Service SubmitTaskResp := do
  let now ← issue .now
  let group ← countTask req now
  let uuid ← issue .newUuid
  ofExcept (checkTaskSpec req.taskSpec)
  let (id, task) ← issue (.insertTask (Mitosis.Service.newTask creatorId req group uuid now))
  batchAddTask .anyWriteAdmin id task "send batch add task failed"
  return ⟨task.taskId, task.uuid⟩

/-- The row that `worker_submit_pending_task` inserts. -/
def pendingTask (creatorId : UserId) (upstreamTaskUuid : Uuid) (req : SubmitTaskReq)
    (group : GroupId × Group) (uuid : Uuid) (now : Instant) : ActiveTask :=
  { Mitosis.Service.newTask creatorId req group uuid now with
    state := .pending
    upstreamTaskUuid := some upstreamTaskUuid }

def workerSubmitPendingTask (creatorId : UserId) (upstreamTaskUuid : Uuid)
    (req : SubmitTaskReq) : Service SubmitTaskResp := do
  let now ← issue .now
  let group ← countTask req now
  let uuid ← issue .newUuid
  ofExcept (checkTaskSpec req.taskSpec)
  let (_, task) ← issue (.insertTask (pendingTask creatorId upstreamTaskUuid req group uuid now))
  return ⟨task.taskId, task.uuid⟩

def workerTriggerPendingTask (uuid : Uuid) : Service Unit := do
  let task ← select (.pendingTask uuid)
  let (id, _) ← okOr (notFound s!"Pending task with uuid {uuid}") task
  let now ← issue .now
  let task ← issue (.change id .trigger now)
  batchAddTask .anyWriteAdmin id task "send batch add task failed"

/-- Submit every task of the list; the failure of one does not stop the others. -/
def submitTasks (userId : UserId) :
    List SubmitTaskReq → Service (List (Except ApiError SubmitTaskResp))
  | [] => return []
  | req :: reqs => do
    let result ← attempt (userSubmitTask userId req)
    let results ← submitTasks userId reqs
    return result.mapError Error.toApiError :: results

def userBatchSubmitTasks (userId : UserId) (reqs : List SubmitTaskReq) :
    Service (List (Except ApiError SubmitTaskResp)) :=
  if reqs.isEmpty then fail (.apiError (.invalidRequest "Tasks list cannot be empty"))
  else submitTasks userId reqs

def checkWriter (userId : UserId) (groupId : GroupId) : Service Unit := do
  let role ← select (.userGroupRole userId groupId)
  let role ← okOr (.apiError (.invalidRequest "User is not in the group")) role
  if role = .read then fail (.authError .permissionDenied) else return ()

def changeReady (userId : UserId) (uuid : Uuid) (req : ChangeTaskReq) :
    Service (TaskId × ActiveTask) := do
  let task ← issue (.readyTask uuid)
  let (id, task) ← okOr (Db.taskNotFound uuid) task
  checkWriter userId task.groupId
  let now ← issue .now
  ofExcept (req.taskSpec.elim (.ok ()) checkTaskSpec)
  let task ← issue (.change id (.columns req) now)
  return (id, task)

def userChangeTask (userId : UserId) (uuid : Uuid) (req : ChangeTaskReq) : Service Unit := do
  if req.tags.isNone && req.timeout.isNone && req.priority.isNone && req.taskSpec.isNone then
    fail (.apiError (.invalidRequest "No change specified"))
  else
    let (id, task) ← transaction (changeReady userId uuid req)
    let workers ← select (.eligibleWorkers .anyWriteAdmin task.groupId task.tags)
    sent (.sendTask (.removeTask id)) "send remove task op failed"
    sent (.sendTask (.batchAddTask workers id task.priority)) "send batch add task op failed"

def changeLabels (userId : UserId) (uuid : Uuid) (labels : List String) : Service Unit := do
  match ← select (.activeByUuid uuid) with
  | some (id, task) =>
    checkWriter userId task.groupId
    let now ← issue .now
    let _ ← issue (.change id (.labels labels) now)
    return ()
  | none =>
    let task ← select (.archivedByUuid uuid)
    let (id, task) ← okOr (Db.taskNotFound uuid) task
    checkWriter userId task.groupId
    let now ← issue .now
    let _ ← issue (.changeArchived id (.labels labels) now)
    return ()

def userChangeTaskLabels (userId : UserId) (uuid : Uuid) (labels : List String) :
    Service Unit :=
  transaction (changeLabels userId uuid labels)

/-- Remove tasks from the dispatch queues, whether or not the dispatcher is there. -/
def removeTasks : List TaskId → Service Unit
  | [] => return ()
  | id :: ids => do
    let _ ← attempt (issue (.sendTask (.removeTask id)))
    removeTasks ids

def archiveReady (userId : UserId) (uuid : Uuid) : Service TaskId := do
  let task ← issue (.readyTask uuid)
  let (id, task) ← okOr (Db.taskNotFound uuid) task
  checkWriter userId task.groupId
  let now ← issue .now
  issue (.insertArchived id (Db.cancelledTask now task))
  issue (.deleteActive id)
  return id

def userCancelTask (userId : UserId) (uuid : Uuid) : Service Unit := do
  let id ← transaction (archiveReady userId uuid)
  removeTasks [id]

def queriedGroup (userId : UserId) : Option String → Service String
  | some name => return name
  | none => do
    let user ← select (.user userId)
    let user ← okOr (notFound "User") user
    return user.username

/-- `check_task_list_query`: the query with its group name filled in. -/
def checkTaskListQuery (userId : UserId) (query : TasksQueryReq) (role : UserGroupRole) :
    Service (TasksQueryReq × String) := do
  ofExcept query.check
  let groupName ← queriedGroup userId query.groupName
  match ← select (.roleByName userId groupName) with
  | some r =>
    if r.toValue ≥ role.toValue then return ({ query with groupName := some groupName }, groupName)
    else fail (.authError .permissionDenied)
  | none => fail (.apiError (.invalidRequest
      s!"Group with name {groupName} not found or user is not in the group"))

def archiveSelected (sel : CancelSelection) : Service (Table TaskId ArchivedTask) :=
  transaction do
    let now ← issue .now
    issue (.archiveTasks sel now)

def cancelTasksByFilter (userId : UserId) (req : TasksCancelByFilterReq) :
    Service TasksCancelByFilterResp := do
  let (query, groupName) ← checkTaskListQuery userId {
    creatorUsernames := req.creatorUsernames
    groupName := req.groupName
    tags := req.tags
    labels := req.labels
    states := some (Mitosis.Service.cancellableStates req.states)
    exitStatus := req.exitStatus
    priority := req.priority
    reporterUuid := none
    limit := none
    offset := none
    count := false } .write
  let filter ← ofExcept (applyTaskFilters query)
  let archived ← archiveSelected (.filter filter)
  removeTasks archived.keys
  return ⟨archived.keys.length, groupName⟩

def cancelChunks (userId : UserId) : List (List Uuid) → Service (List (TaskId × Uuid))
  | [] => return []
  | chunk :: chunks => do
    let archived ← archiveSelected (.uuids userId chunk)
    let rest ← cancelChunks userId chunks
    return archived.rows.map (fun e => (e.1, e.2.uuid)) ++ rest

def cancelTasksByUuids (userId : UserId) (uuids : List Uuid) :
    Service TasksCancelByUuidsResp := do
  if uuids.isEmpty then fail (.apiError (.invalidRequest "UUIDs list cannot be empty"))
  else
    let found ← cancelChunks userId (uuids.toChunks 1024)
    removeTasks (found.map Prod.fst)
    return ⟨found.length, uuids.filter fun uuid => uuid ∉ found.map Prod.snd⟩

/-- Put back the assigned task of a removed worker. -/
def pushBack : Option TaskId → Service Unit
  | none => return ()
  | some taskId => do
    let now ← issue .now
    let task ← issue (.change taskId .pushBack now)
    batchAddTask .gtRead taskId task "send batch add task op failed"

def removeWorker (id : WorkerId) (worker : Worker) : Service Unit := do
  pushBack worker.assignedTaskId
  transaction do
    let _ ← issue (.deleteWorkers (.ids [id]))
    return ()
  sent (.sendTask (.unregisterWorker id)) "send remove worker op failed"
  sent (.sendHeartbeat (.unregisterWorker id)) "send remove worker op failed"

def unregisterWorker (id : WorkerId) : Service Unit := do
  let worker ← select (.worker id)
  let worker ← okOr (notFound s!"Worker {id} not found") worker
  removeWorker id worker

def findWorker (uuid : Uuid) : Service (WorkerId × Worker) := do
  let worker ← select (.workerByUuid uuid)
  okOr (notFound s!"Worker {uuid} not found") worker

def shutdownWorker (id : WorkerId) (worker : Worker) : WorkerShutdownOp → Service Unit
  | .force => removeWorker id worker
  | .graceful =>
    if worker.assignedTaskId.isNone then removeWorker id worker
    else do
      let _ ← issue (.updateWorker id .graceful)
      return ()

def removeWorkerByUuid (uuid : Uuid) (op : WorkerShutdownOp) : Service Unit := do
  let (id, worker) ← findWorker uuid
  shutdownWorker id worker op

def userRemoveWorkerByUuid (userId : UserId) (uuid : Uuid) (op : WorkerShutdownOp) :
    Service Unit := do
  let (id, worker) ← findWorker uuid
  let group ← select (.commonGroup userId id [.admin] [.admin])
  let _ ← okOr (.apiError (.authError .permissionDenied)) group
  shutdownWorker id worker op

def updateWorker (id : WorkerId) (now : Instant) : Nat → Service Worker
  | 0 => fail (.custom "Retry limit reached for updating worker")
  | n + 1 => do
    match ← attempt (issue (.updateWorker id (.heartbeat now))) with
    | .ok worker => return worker
    | .error e =>
      if !Mitosis.Service.isRetryableError e || n = 0 then fail e else updateWorker id now n

/-- The worker's task runs longer than its timeout and a grace period of 60 seconds. -/
def taskExpired (worker : Worker) : Service Bool := do
  match worker.assignedTaskId with
  | none => return false
  | some taskId =>
    match ← select (.task taskId) with
    | none => return false
    | some task =>
      if task.state = .running then
        let now ← issue .now
        return decide ((now : Int) - task.updatedAt > asI64 (task.timeout + 60))
      else return false

def heartbeat (id : WorkerId) : Service Unit := do
  let now ← issue .now
  let worker ← updateWorker id now 3
  let expired ← taskExpired worker
  if expired then removeWorker id worker
  else sent (.sendHeartbeat (.heartbeat id)) "send worker heartbeat failed"

/-- `HeartbeatQueue::handle_timeout` for the worker that it popped. -/
def handleTimeout (id : WorkerId) : Service Unit := do
  match ← select (.worker id) with
  | some worker =>
    let _ ← attempt (removeWorker id worker)
    return ()
  | none => return ()

/-- Queue the tasks of force-removed workers for the workers that remain. -/
def reassignTasks : List (TaskId × ActiveTask) → Service Unit
  | [] => return ()
  | (id, task) :: tasks => do
    let workers ← select (.eligibleWorkers .gtRead task.groupId task.tags)
    let _ ← attempt (issue (.sendTask (.batchAddTask workers id task.priority)))
    reassignTasks tasks

def unregisterWorkers : List WorkerId → Service Unit
  | [] => return ()
  | id :: ids => do
    let _ ← attempt (issue (.sendTask (.unregisterWorker id)))
    let _ ← attempt (issue (.sendHeartbeat (.unregisterWorker id)))
    unregisterWorkers ids

def shutdownSelected (groupId : GroupId) (req : WorkersShutdownByFilterReq) :
    Service Db.Shutdown := do
  let now ← issue .now
  match req.op with
  | .force =>
    let tasks ← issue (.pushBackTasks (.assignedTo groupId req) now)
    let removed ← issue (.deleteWorkers (.all groupId req))
    return ⟨removed.length, tasks, removed⟩
  | .graceful =>
    let removed ← issue (.deleteWorkers (.idle groupId req))
    let kept ← issue (.retireWorkers (.busy groupId req) now)
    return ⟨removed.length + kept.length, [], removed⟩

def shutdownWorkersByFilter (userId : UserId) (req : WorkersShutdownByFilterReq) :
    Service WorkersShutdownByFilterResp := do
  let group ← select (.userGroup userId req.groupName)
  let (groupId, role, groupName) ← okOr (.authError .permissionDenied) group
  if role ≠ .admin then fail (.authError .permissionDenied)
  else
    let res ← transaction (shutdownSelected groupId req)
    reassignTasks res.tasksToReassign
    unregisterWorkers res.removedWorkerIds
    return ⟨res.shutdownCount, groupName⟩

/-- The transaction of `shutdown_workers_by_uuids` for one chunk. -/
def shutdownChunk (userId : UserId) (op : WorkerShutdownOp) (uuids : List Uuid) :
    Service (Db.Shutdown × List Uuid) := do
  let workers ← issue (.administeredWorkers userId uuids)
  if workers.isEmpty then return (⟨0, [], []⟩, [])
  else
    let found := workers.map fun e => e.2.workerId
    let now ← issue .now
    match op with
    | .force =>
      let workerIds := workers.map Prod.fst
      let taskIds := workers.filterMap fun e => e.2.assignedTaskId
      let tasks ← if taskIds.isEmpty then pure [] else issue (.pushBackTasks (.ids taskIds) now)
      let _ ← issue (.deleteWorkers (.ids workerIds))
      return (⟨workerIds.length, tasks, workerIds⟩, found)
    | .graceful =>
      let without := (workers.filter fun e => e.2.assignedTaskId.isNone).map Prod.fst
      let withTask := (workers.filter fun e => e.2.assignedTaskId.isSome).map Prod.fst
      if !without.isEmpty then
        let _ ← issue (.deleteWorkers (.ids without))
      if !withTask.isEmpty then
        let _ ← issue (.retireWorkers (.ids withTask) now)
      return (⟨without.length + withTask.length, [], without⟩, found)

def shutdownChunks (userId : UserId) (op : WorkerShutdownOp) :
    List (List Uuid) → Service (Db.Shutdown × List Uuid)
  | [] => return (⟨0, [], []⟩, [])
  | chunk :: chunks => do
    let (res, found) ← transaction (shutdownChunk userId op chunk)
    let (rest, more) ← shutdownChunks userId op chunks
    return (⟨res.shutdownCount + rest.shutdownCount,
      res.tasksToReassign ++ rest.tasksToReassign,
      res.removedWorkerIds ++ rest.removedWorkerIds⟩, found ++ more)

def shutdownWorkersByUuids (userId : UserId) (uuids : List Uuid) (op : WorkerShutdownOp) :
    Service WorkersShutdownByUuidsResp := do
  if uuids.isEmpty then fail (.apiError (.invalidRequest "UUIDs list cannot be empty"))
  else
    let (res, found) ← shutdownChunks userId op (uuids.toChunks 1024)
    reassignTasks res.tasksToReassign
    unregisterWorkers res.removedWorkerIds
    return ⟨res.shutdownCount, uuids.filter fun uuid => uuid ∉ found⟩

/-- One iteration of the loop of `fetch_task`. -/
def fetchTask (workerId : WorkerId) : Service (Flow (Option WorkerTaskResp)) := do
  sent (.sendFetch workerId) "send fetch task failed"
  match ← sent (.recvFetch workerId) "recv fetch task failed: RecvError(())" with
  | none => return .done none
  | some id =>
    let now ← issue .now
    match ← issue (.assignTask workerId id now) with
    | none => return .again
    | some task =>
      let _ ← issue (.updateWorker workerId (.link (some id) now))
      return .done (some {
        id
        uuid := task.uuid
        timeout := asU64 task.timeout
        upstreamTaskUuid := task.upstreamTaskUuid
        spec := task.spec })

def reportSubmit (workerId : WorkerId) (taskId : TaskId) (task : ActiveTask)
    (req : SubmitTaskReq) (now : Instant) : Service Unit := do
  if task.state ≠ .finished ∧ task.state ≠ .cancelled then
    fail (.apiError (.invalidRequest "Task can not spawn new tasks"))
  else
    match ← attempt (select (.user task.creatorId)) with
    | .error _ => fail (.authError .wrongCredentials)
    | .ok user =>
      let user ← okOr (.authError .wrongCredentials) user
      if user.state ≠ .active then fail (.authError .permissionDenied)
      else
        let group ← select (.group task.groupId)
        let group ← okOr (notFound "Group not found") group
        if req.groupName ≠ group.groupName then
          fail (.apiError (.invalidRequest
            s!"Group name mismatch: expected '{group.groupName}', got '{req.groupName}'"))
        else
          let role ← select (.groupWorker task.groupId workerId)
          let _ ← okOr (.apiError (.authError .permissionDenied)) role
          match ← attempt (workerSubmitPendingTask task.creatorId task.uuid req) with
          | .error e => fail (.apiError e.toApiError)
          | .ok resp =>
            let _ ← issue (.change taskId (.downstream resp.uuid) now)
            return ()

def archiveCommitted (workerId : WorkerId) (taskId : TaskId) (archived : ArchivedTask)
    (now : Instant) : Service WorkerState := do
  issue (.insertArchived taskId archived)
  issue (.deleteActive taskId)
  let worker ← issue (.updateWorker workerId (.link none now))
  match worker.state with
  | .gracefulShutdown =>
    let _ ← issue (.deleteWorkers (.ids [workerId]))
    return .gracefulShutdown
  | .normal => return .normal

def triggerDownstream : Option Uuid → Service Unit
  | none => return ()
  | some uuid => workerTriggerPendingTask uuid

def unregisterGraceful (workerId : WorkerId) : WorkerState → Service Unit
  | .normal => return ()
  | .gracefulShutdown => do
    sent (.sendTask (.unregisterWorker workerId))
      "Worker was requested to gracefully shutdown but failed to send op through channels"
    sent (.sendHeartbeat (.unregisterWorker workerId))
      "Worker was requested to gracefully shutdown but failed to send op through channels"

def reportCommit (workerId : WorkerId) (workerUuid : Uuid) (taskId : TaskId)
    (task : ActiveTask) (res : TaskResultSpec) (now : Instant) : Service Unit := do
  if task.state ≠ .finished ∧ task.state ≠ .cancelled then
    fail (.apiError (.invalidRequest "Task can not be marked as done"))
  else
    let workerState ← transaction (archiveCommitted workerId taskId
      (Mitosis.Service.committedTask task res workerUuid now) now)
    removeTasks [taskId]
    triggerDownstream task.downstreamTaskUuid
    unregisterGraceful workerId workerState

/-- The reports of a worker, apart from uploads. -/
inductive Report where
  | finish
  | cancel
  | submit (req : SubmitTaskReq)
  | commit (res : TaskResultSpec)

def reportTask (workerId : WorkerId) (workerUuid : Uuid) (taskId : TaskId) (op : Report) :
    Service Unit := do
  let now ← issue .now
  let task ← select (.task taskId)
  let task ← okOr (notFound s!"Task {taskId} not found") task
  if task.assignedWorker ≠ some workerId then fail (notFound s!"Task {taskId} not found")
  else
    match op with
    | .finish =>
      let _ ← issue (.change taskId (.report .finished) now)
      return ()
    | .cancel =>
      let _ ← issue (.change taskId (.report .cancelled) now)
      return ()
    | .submit req => reportSubmit workerId taskId task req now
    | .commit res => reportCommit workerId workerUuid taskId task res now

def getTaskByUuid (uuid : Uuid) : Service TaskQueryResp := do
  let active ← issue (.tasks (.activeInfo uuid))
  let info ← match active with
    | some info => pure (some info)
    | none => issue (.tasks (.archivedInfo uuid))
  let info ← okOr (notFound s!"Task with uuid {uuid}") info
  let artifacts ← issue (.tasks (.artifactsOf uuid))
  return ⟨info, artifacts⟩

def findTaskByUuid (uuid : Uuid) : Service Db.StoredTask := do
  match ← select (.activeByUuid uuid) with
  | some (id, task) => return .active id task
  | none =>
    let task ← select (.archivedByUuid uuid)
    let (id, task) ← okOr (notFound s!"Task {uuid} not found") task
    return .archived id task

def queryTasksByFilter (userId : UserId) (query : TasksQueryReq) : Service TasksQueryResp := do
  let (query, groupName) ← checkTaskListQuery userId query .read
  let filter ← ofExcept (applyTaskFilters query)
  if query.count then
    let active ← issue (.tasks (.activeCount filter query.limit query.offset))
    let archived ← issue (.tasks
      (.archivedCount filter query.reporterUuid query.limit query.offset))
    return ⟨active.getD 0 + archived.getD 0, [], groupName⟩
  else
    let active ← issue (.tasks (.activeInfos filter query.limit query.offset))
    let archived ← issue (.tasks
      (.archivedInfos filter query.reporterUuid query.limit query.offset))
    return ⟨(active ++ archived).length, active ++ archived, groupName⟩

end Service

inductive Call where
  | userSubmitTask (creatorId : UserId) (req : SubmitTaskReq)
  | userBatchSubmitTasks (userId : UserId) (reqs : List SubmitTaskReq)
  | userChangeTask (userId : UserId) (uuid : Uuid) (req : ChangeTaskReq)
  | userChangeTaskLabels (userId : UserId) (uuid : Uuid) (labels : List String)
  | userCancelTask (userId : UserId) (uuid : Uuid)
  | cancelTasksByFilter (userId : UserId) (req : TasksCancelByFilterReq)
  | cancelTasksByUuids (userId : UserId) (uuids : List Uuid)
  | unregisterWorker (id : WorkerId)
  | removeWorkerByUuid (uuid : Uuid) (op : WorkerShutdownOp)
  | userRemoveWorkerByUuid (userId : UserId) (uuid : Uuid) (op : WorkerShutdownOp)
  | heartbeat (id : WorkerId)
  | handleTimeout (id : WorkerId)
  | shutdownWorkersByFilter (userId : UserId) (req : WorkersShutdownByFilterReq)
  | shutdownWorkersByUuids (userId : UserId) (uuids : List Uuid) (op : WorkerShutdownOp)
  | fetchTask (workerId : WorkerId)
  | reportTask (workerId : WorkerId) (workerUuid : Uuid) (taskId : TaskId) (op : Service.Report)
  | getTaskByUuid (uuid : Uuid)
  | findTaskByUuid (uuid : Uuid)
  | queryTasksByFilter (userId : UserId) (query : TasksQueryReq)

/-- What a finished request hands to its caller. -/
inductive Reply where
  | unit
  | submit (r : SubmitTaskResp)
  | submits (rs : List (Except ApiError SubmitTaskResp))
  | cancelByFilter (r : TasksCancelByFilterResp)
  | cancelByUuids (r : TasksCancelByUuidsResp)
  | shutdownByFilter (r : WorkersShutdownByFilterResp)
  | shutdownByUuids (r : WorkersShutdownByUuidsResp)
  | fetched (task : Option WorkerTaskResp)
  | task (r : TaskQueryResp)
  | stored (task : Db.StoredTask)
  | tasks (r : TasksQueryResp)

def Service.loop (f : α → Reply) (p : Service (Flow α)) :
    Prog Cmd Cmd.Resp (Flow (Except Error Reply)) :=
  Prog.bind (β := Flow (Except Error Reply)) p fun
    | .error e => .ret (.done (.error e))
    | .ok .again => .ret .again
    | .ok (.done a) => .ret (.done (.ok (f a)))

open Fallible (once) in
def program : Call → Prog Cmd Cmd.Resp (Flow (Except Error Reply))
  | .userSubmitTask creatorId req => once .submit (Service.userSubmitTask creatorId req)
  | .userBatchSubmitTasks userId reqs =>
    once .submits (Service.userBatchSubmitTasks userId reqs)
  | .userChangeTask userId uuid req =>
    once (fun _ => .unit) (Service.userChangeTask userId uuid req)
  | .userChangeTaskLabels userId uuid labels =>
    once (fun _ => .unit) (Service.userChangeTaskLabels userId uuid labels)
  | .userCancelTask userId uuid => once (fun _ => .unit) (Service.userCancelTask userId uuid)
  | .cancelTasksByFilter userId req =>
    once .cancelByFilter (Service.cancelTasksByFilter userId req)
  | .cancelTasksByUuids userId uuids =>
    once .cancelByUuids (Service.cancelTasksByUuids userId uuids)
  | .unregisterWorker id => once (fun _ => .unit) (Service.unregisterWorker id)
  | .removeWorkerByUuid uuid op => once (fun _ => .unit) (Service.removeWorkerByUuid uuid op)
  | .userRemoveWorkerByUuid userId uuid op =>
    once (fun _ => .unit) (Service.userRemoveWorkerByUuid userId uuid op)
  | .heartbeat id => once (fun _ => .unit) (Service.heartbeat id)
  | .handleTimeout id => once (fun _ => .unit) (Service.handleTimeout id)
  | .shutdownWorkersByFilter userId req =>
    once .shutdownByFilter (Service.shutdownWorkersByFilter userId req)
  | .shutdownWorkersByUuids userId uuids op =>
    once .shutdownByUuids (Service.shutdownWorkersByUuids userId uuids op)
  | .fetchTask workerId => (Service.fetchTask workerId).loop .fetched
  | .reportTask workerId workerUuid taskId op =>
    once (fun _ => .unit) (Service.reportTask workerId workerUuid taskId op)
  | .getTaskByUuid uuid => once .task (Service.getTaskByUuid uuid)
  | .findTaskByUuid uuid => once .stored (Service.findTaskByUuid uuid)
  | .queryTasksByFilter userId query => once .tasks (Service.queryTasksByFilter userId query)

/-- What the rest of the coordinator does meanwhile: users and groups are added and changed,
workers register and change, and uploads touch the rows of their tasks. -/
inductive Env where
  | tick
  | accounts (users : Table UserId User) (groups : Table GroupId Group)
      (userGroup : Table (UserId × GroupId) UserGroupRole)
  | workers (workers : Table WorkerId Worker)
      (groupWorker : Table (GroupId × WorkerId) GroupWorkerRole)
  | touchActive (id : TaskId)
  | touchArchived (id : TaskId)

def accountsKept (db : Db) (users : Table UserId User) (groups : Table GroupId Group) : Bool :=
  (db.users.rows.all fun e => (users.find e.1).any fun user => user.username = e.2.username) &&
  (db.groups.rows.all fun e => (groups.find e.1).any fun group =>
    group.groupName = e.2.groupName ∧ group.taskCount = e.2.taskCount) &&
  groups.rows.all fun e => (db.groups.find e.1).isSome || decide (e.2.taskCount = 0)

def Infra.unlocked (s : Infra) (row : Row) : Bool :=
  s.txns.opened.rows.all fun e => e.2.all fun w => row ∉ w.rows

def Env.run (s : Infra) : Env → Option Infra
  | .tick => some { s with clock := s.clock + 1 }
  | .accounts users groups userGroup =>
    let db := s.txns.committed
    if accountsKept db users groups then
      some { s with txns := { s.txns with committed := { db with users, groups, userGroup } } }
    else none
  | .workers table roles =>
    let db := s.txns.committed
    some { s with txns := { s.txns with
      committed := { db with workers := table, groupWorker := roles } } }
  | .touchActive id =>
    if s.unlocked (.active id) then
      some { s with txns := { s.txns with
        committed := (Write.change id .touch s.clock).apply s.txns.committed } }
    else none
  | .touchArchived id =>
    if s.unlocked (.archived id) then
      some { s with txns := { s.txns with
        committed := (Write.changeArchived id .touch s.clock).apply s.txns.committed } }
    else none

def system : System Infra Cmd Cmd.Resp Call (Except Error Reply) Chance Env where
  program := program
  exec := Cmd.exec
  env e s := e.run s

abbrev State := Sessions Infra Cmd Cmd.Resp Call (Except Error Reply)

/-- The accounts and workers of `db`, before the first task. -/
def untasked (db : Db) : Db :=
  { db with
    groups := db.groups.mapRows fun group => { group with taskCount := 0 }
    activeTasks := .empty
    archivedTasks := .empty }

def initial (db : Db) (clock : Instant) : State :=
  ⟨⟨⟨untasked db, .empty⟩, 1, 0, clock, []⟩, [], []⟩

end Tasks
end Mitosis
