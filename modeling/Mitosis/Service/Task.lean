import Mitosis.Command

namespace Mitosis
set_option autoImplicit true

namespace Service

def countTask (groupName : String) (now : Instant) : Service (GroupId × Group) := do
  let group ← write (.addTaskCount groupName now)
  okOr (.apiError (.notFound s!"User or group with name {groupName}")) group

/-- The row that both ways of submitting a task insert. -/
def newTask (creatorId : UserId) (req : SubmitTaskReq) (group : GroupId × Group) (uuid : Uuid)
    (now : Instant) : ActiveTask where
  creatorId := creatorId
  groupId := group.1
  taskId := group.2.taskCount
  uuid := uuid
  tags := req.tags
  labels := req.labels
  createdAt := now
  updatedAt := now
  state := .ready
  assignedWorker := none
  timeout := asI64 req.timeout
  priority := req.priority
  spec := req.taskSpec
  result := none
  upstreamTaskUuid := none
  downstreamTaskUuid := none

def userSubmitTask (creatorId : UserId) (req : SubmitTaskReq) : Service SubmitTaskResp := do
  let now ← now
  let group ← countTask req.groupName now
  let uuid ← newUuid
  ofExcept (checkTaskSpec req.taskSpec)
  let (id, task) ← write (.insertTask (newTask creatorId req group uuid now))
  let workers ← select (.eligibleWorkers .anyWriteAdmin task.groupId task.tags)
  sendTask (.batchAddTask workers id task.priority) "send batch add task failed"
  return ⟨task.taskId, task.uuid⟩

def workerSubmitPendingTask (creatorId : UserId) (upstreamTaskUuid : Uuid)
    (req : SubmitTaskReq) : Service SubmitTaskResp := do
  let now ← now
  let group ← countTask req.groupName now
  let uuid ← newUuid
  ofExcept (checkTaskSpec req.taskSpec)
  let (_, task) ← write (.insertTask { newTask creatorId req group uuid now with
    state := .pending
    upstreamTaskUuid := some upstreamTaskUuid })
  return ⟨task.taskId, task.uuid⟩

def workerTriggerPendingTask (uuid : Uuid) : Service Unit := do
  let task ← select (.pendingTask uuid)
  let (id, _) ← okOr (.apiError (.notFound s!"Pending task with uuid {uuid}")) task
  let now ← now
  let task ← write (.triggerTask id now)
  let workers ← select (.eligibleWorkers .anyWriteAdmin task.groupId task.tags)
  sendTask (.batchAddTask workers id task.priority) "send batch add task failed"

def userChangeTask (userId : UserId) (uuid : Uuid) (req : ChangeTaskReq) : Service Unit := do
  if req.tags.isNone && req.timeout.isNone && req.priority.isNone && req.taskSpec.isNone then
    fail (.apiError (.invalidRequest "No change specified"))
  else
    let (id, task) ← write (.changeTask userId uuid req)
    let workers ← select (.eligibleWorkers .anyWriteAdmin task.groupId task.tags)
    sendTask (.removeTask id) "send remove task op failed"
    sendTask (.batchAddTask workers id task.priority) "send batch add task op failed"

def userChangeTaskLabels (userId : UserId) (uuid : Uuid) (labels : List String) :
    Service Unit :=
  write (.changeTaskLabels userId uuid labels)

/-- `worker::remove_task`. -/
def removeTask (id : TaskId) : Service Unit :=
  sendTask (.removeTask id) "send remove task failed"

def userCancelTask (userId : UserId) (uuid : Uuid) : Service Unit := do
  let id ← write (.cancelTask userId uuid)
  ignore (removeTask id)

def removeTasks : List TaskId → Service Unit
  | [] => ok ()
  | id :: ids => do
    ignore (removeTask id)
    removeTasks ids

def nonempty (msg : String) (xs : Option (List α)) : Service Unit :=
  if xs.any List.isEmpty then fail (.apiError (.invalidRequest msg)) else ok ()

def queriedGroup (userId : UserId) : Option String → Service String
  | some name => ok name
  | none => do
    let user ← select (.user userId)
    User.username <$> okOr (.apiError (.notFound "User")) user

def checkRole (userId : UserId) (groupName : String) (role : UserGroupRole) : Service Unit := do
  let queryRole ← select (.roleByName userId groupName)
  match queryRole with
  | some r => if r.toValue ≥ role.toValue then ok () else fail (.authError .permissionDenied)
  | none => fail (.apiError (.invalidRequest
      s!"Group with name {groupName} not found or user is not in the group"))

/-- `check_task_list_query`: the query with its group name filled in. -/
def checkTaskListQuery (userId : UserId) (query : TasksQueryReq) (role : UserGroupRole) :
    Service (TasksQueryReq × String) := do
  nonempty "Tags cannot be empty if specified" query.tags
  nonempty "Labels cannot be empty if specified" query.labels
  nonempty "Creator username cannot be empty if specified" query.creatorUsernames
  nonempty "State cannot be empty if specified" query.states
  let groupName ← queriedGroup userId query.groupName
  checkRole userId groupName role
  return ({ query with groupName := some groupName }, groupName)

def cancellableStates (states : Option (List TaskState)) : List TaskState :=
  let asked := [TaskState.ready, .pending].filter fun st =>
    states.any fun states => decide (st ∈ states)
  if asked.isEmpty then [.ready, .pending] else asked

def cancelTasksByFilter (userId : UserId) (req : TasksCancelByFilterReq) :
    Service TasksCancelByFilterResp := do
  let (query, groupName) ← checkTaskListQuery userId {
    creatorUsernames := req.creatorUsernames
    groupName := req.groupName
    tags := req.tags
    labels := req.labels
    states := some (cancellableStates req.states)
    exitStatus := req.exitStatus
    priority := req.priority
    reporterUuid := none
    limit := none
    offset := none
    count := false } .write
  let filter ← ofExcept (applyTaskFilters query)
  let taskIds ← write (.cancelTasksByFilter filter)
  removeTasks taskIds
  return ⟨taskIds.length, groupName⟩

def cancelChunks (userId : UserId) : List (List Uuid) → Service (List (TaskId × Uuid))
  | [] => ok []
  | chunk :: chunks => do
    let found ← write (.cancelTasksByUuids userId chunk)
    let rest ← cancelChunks userId chunks
    return found ++ rest

def cancelTasksByUuids (userId : UserId) (uuids : List Uuid) :
    Service TasksCancelByUuidsResp := do
  if uuids.isEmpty then fail (.apiError (.invalidRequest "UUIDs list cannot be empty"))
  else
    let found ← cancelChunks userId (uuids.toChunks 1024)
    removeTasks (found.map Prod.fst)
    return ⟨found.length, uuids.filter fun uuid => uuid ∉ found.map Prod.snd⟩

/-- Submit every task of the list; the failure of one does not stop the others. -/
def submitTasks (userId : UserId) :
    List SubmitTaskReq → Service (List (Except ApiError SubmitTaskResp))
  | [] => ok []
  | req :: reqs => do
    let result ← recover (Except.ok <$> userSubmitTask userId req) fun e =>
      ok (.error e.toApiError)
    let results ← submitTasks userId reqs
    return result :: results

def userBatchSubmitTasks (userId : UserId) (reqs : List SubmitTaskReq) :
    Service (List (Except ApiError SubmitTaskResp)) :=
  if reqs.isEmpty then fail (.apiError (.invalidRequest "Tasks list cannot be empty"))
  else submitTasks userId reqs

def groupUploadArtifact (task : Db.StoredTask) (contentType : ArtifactContentType)
    (contentLength : Nat) : Service (Bool × PresignedUrl) := do
  let now ← now
  let group ← select (.group task.groupId)
  let group ← okOr (.apiError (.invalidRequest "Group for the task not found")) group
  if group.state ≠ .active then fail (.apiError (.invalidRequest "Group is not active"))
  else write (.uploadArtifact task group contentType (asI64 contentLength) now)

def findTaskByUuid (uuid : Uuid) : Service Db.StoredTask := do
  match ← select (.activeByUuid uuid) with
  | some (id, task) => return .active id task
  | none =>
    let task ← select (.archivedByUuid uuid)
    let (id, task) ← okOr (.apiError (.notFound s!"Task {uuid} not found")) task
    return .archived id task

def userUploadArtifact (userId : UserId) (uuid : Uuid) (contentType : ArtifactContentType)
    (contentLength : Nat) : Service (Bool × PresignedUrl) := do
  let task ← findTaskByUuid uuid
  let role ← select (.userGroupRole userId task.groupId)
  let role ← okOr (.authError .permissionDenied) role
  if role = .read then fail (.authError .permissionDenied)
  else groupUploadArtifact task contentType contentLength

end Service
end Mitosis
