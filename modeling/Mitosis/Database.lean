import Mitosis.Filter

namespace Mitosis
set_option autoImplicit true

structure Db where
  users : Table UserId User
  groups : Table GroupId Group
  userGroup : Table (UserId × GroupId) UserGroupRole
  workers : Table WorkerId Worker
  groupWorker : Table (GroupId × WorkerId) GroupWorkerRole
  activeTasks : Table TaskId ActiveTask
  archivedTasks : Table TaskId ArchivedTask
  artifacts : Table (Uuid × ArtifactContentType) Artifact
  workerSeq : WorkerId
  taskSeq : TaskId

/-- A statement or transaction: it fails and changes nothing, or answers and commits. -/
abbrev Stmt (α : Type) := Db → Except Error (α × Db)

/-- `x as i64`. -/
def asI64 (n : Int) : Int := (n + 2 ^ 63) % 2 ^ 64 - 2 ^ 63

/-- `x as u64`. -/
def asU64 (n : Int) : Nat := (n % 2 ^ 64).toNat

/-- The two spellings of the role test in the queries for eligible workers. -/
inductive RoleTest where
  | gtRead | anyWriteAdmin

def RoleTest.holds (role : GroupWorkerRole) : RoleTest → Bool
  | .gtRead => role.toValue > 0
  | .anyWriteAdmin => role ∈ [.write, .admin]

namespace Db

def read (f : Db → α) : Stmt α := fun db => .ok (f db, db)

def insertWorker (workerId : Uuid) (creatorId : UserId) (tags labels : List String)
    (now : Instant) : Stmt (WorkerId × Worker) := fun db =>
  let worker : Worker := {
    workerId, creatorId, tags, labels
    createdAt := now
    updatedAt := now
    state := .normal
    lastHeartbeat := now
    assignedTaskId := none }
  .ok ((db.workerSeq, worker),
    { db with workers := db.workers.set db.workerSeq worker, workerSeq := db.workerSeq + 1 })

def updateWorker (id : WorkerId) (f : Worker → Worker) : Stmt Worker := fun db =>
  match db.workers.find id with
  | none => .error (.dbError .recordNotUpdated)
  | some worker => .ok (f worker, { db with workers := db.workers.update id f })

/-- Delete workers together with their rows in `group_worker`. -/
def withoutWorkers (db : Db) (p : WorkerId → Bool) : Db :=
  { db with
    groupWorker := db.groupWorker.deleteWhere fun e _ => p e.2
    workers := db.workers.deleteWhere fun id _ => p id }

def findWorkerByUuid (uuid : Uuid) (db : Db) : Option (WorkerId × Worker) :=
  db.workers.findWhere fun _ w => w.workerId = uuid

def groupRoles (roles : Table String GroupWorkerRole) (id : WorkerId) (db : Db) :
    List ((GroupId × WorkerId) × GroupWorkerRole) :=
  db.groups.rows.filterMap fun e =>
    (roles.find e.2.groupName).map fun role => ((e.1, id), role)

def insertGroupWorkers (roles : Table String GroupWorkerRole) (id : WorkerId) : Stmt Unit :=
  fun db =>
    let rows := db.groupRoles roles id
    if db.workers.find id = none ∨ rows.any fun e => (db.groupWorker.find e.1).isSome then
      .error (.dbError .constraint)
    else .ok ((), { db with
      groupWorker := rows.foldl (fun t e => t.set e.1 e.2) db.groupWorker })

/-- The query of `setup_worker_queues`: no condition on the state of the tasks. -/
def activeTasksOf (id : WorkerId) (tags : List String) (db : Db) : List (TaskId × Int) :=
  db.activeTasks.rows.filterMap fun e =>
    if (db.workers.find id).isSome ∧
        (db.groupWorker.find (e.2.groupId, id)).any (fun role => role.toValue > 0) ∧
        containsAll tags e.2.tags then
      some (e.1, e.2.priority)
    else none

def eligibleWorkers (test : RoleTest) (groupId : GroupId) (tags : List String) (db : Db) :
    List WorkerId :=
  db.groupWorker.rows.filterMap fun e =>
    if e.1.1 = groupId ∧ test.holds e.2 ∧
        (db.workers.find e.1.2).any (fun w => containsAll w.tags tags) then
      some e.1.2
    else none

def findCommonGroup (userId : UserId) (id : WorkerId) (workerRoles : List GroupWorkerRole)
    (userRoles : List UserGroupRole) (db : Db) : Option (String × GroupWorkerRole) :=
  db.groupWorker.rows.findSome? fun e =>
    if e.1.2 = id ∧ e.2 ∈ workerRoles ∧
        (db.userGroup.find (userId, e.1.1)).any (fun role => decide (role ∈ userRoles)) then
      (db.groups.find e.1.1).map fun g => (g.groupName, e.2)
    else none

def findGroups (names : List String) (db : Db) : List (GroupId × String) :=
  db.groups.rows.filterMap fun e =>
    if e.2.groupName ∈ names then some (e.1, e.2.groupName) else none

def upsertGroupWorkers (id : WorkerId) (relations : List (GroupId × GroupWorkerRole)) :
    Stmt Unit := fun db =>
  if db.workers.find id = none then .error (.dbError .constraint)
  else .ok ((), { db with
    groupWorker := relations.foldl (fun t e => t.set (e.1, id) e.2) db.groupWorker })

def deleteGroupWorkers (id : WorkerId) (groups : List GroupId) : Stmt Unit := fun db =>
  .ok ((), { db with
    groupWorker := db.groupWorker.deleteWhere fun e _ => e.1 ∈ groups ∧ e.2 = id })

def updateTask (id : TaskId) (f : ActiveTask → ActiveTask) : Stmt ActiveTask := fun db =>
  match db.activeTasks.find id with
  | none => .error (.dbError .recordNotUpdated)
  | some task => .ok (f task, { db with activeTasks := db.activeTasks.update id f })

def updateArchivedTask (id : TaskId) (f : ArchivedTask → ArchivedTask) : Stmt ArchivedTask :=
  fun db =>
    match db.archivedTasks.find id with
    | none => .error (.dbError .recordNotUpdated)
    | some task => .ok (f task, { db with archivedTasks := db.archivedTasks.update id f })

def insertTask (task : ActiveTask) : Stmt (TaskId × ActiveTask) := fun db =>
  if db.activeTasks.rows.any fun e => e.2.uuid = task.uuid ∨
      e.2.groupId = task.groupId ∧ e.2.taskId = task.taskId then
    .error (.dbError .constraint)
  else .ok ((db.taskSeq, task),
    { db with activeTasks := db.activeTasks.set db.taskSeq task, taskSeq := db.taskSeq + 1 })

/-- The conditional update of `fetch_task`. -/
def assignTask (workerId : WorkerId) (id : TaskId) (now : Instant) : Stmt (Option ActiveTask) :=
  fun db =>
    match db.activeTasks.find id with
    | none => .ok (none, db)
    | some task =>
      if task.assignedWorker = none ∧ task.state = .ready then
        let f (task : ActiveTask) : ActiveTask :=
          { task with assignedWorker := some workerId, updatedAt := now, state := .running }
        .ok (some (f task), { db with activeTasks := db.activeTasks.update id f })
      else .ok (none, db)

/-- Adding the row to `archived_tasks` violates one of its unique keys. -/
def archiveConflict (db : Db) (id : TaskId) (task : ArchivedTask) : Bool :=
  (db.archivedTasks.find id).isSome || db.archivedTasks.rows.any fun e =>
    decide (e.2.uuid = task.uuid ∨ e.2.groupId = task.groupId ∧ e.2.taskId = task.taskId)

/-- Move tasks from `active_tasks` to `archived_tasks`, the latter rows being given. -/
def archive (tasks : Table TaskId ArchivedTask) : Stmt Unit := fun db =>
  if tasks.rows.any fun e => db.archiveConflict e.1 e.2 then .error (.dbError .constraint)
  else .ok ((), { db with
    archivedTasks := db.archivedTasks.merge tasks
    activeTasks := db.activeTasks.deleteWhere fun id _ => (tasks.find id).isSome })

def cancelledTask (now : Instant) (task : ActiveTask) : ArchivedTask where
  creatorId := task.creatorId
  groupId := task.groupId
  taskId := task.taskId
  uuid := task.uuid
  tags := task.tags
  labels := task.labels
  createdAt := task.createdAt
  updatedAt := now
  state := .cancelled
  assignedWorker := task.assignedWorker
  timeout := task.timeout
  priority := task.priority
  spec := task.spec
  result := some .userCancellation
  upstreamTaskUuid := task.upstreamTaskUuid
  downstreamTaskUuid := task.downstreamTaskUuid
  reporterUuid := none

def commitTask (workerId : WorkerId) (id : TaskId) (archived : ArchivedTask) (now : Instant) :
    Stmt WorkerState := fun db =>
  if db.archiveConflict id archived then .error (.dbError .constraint)
  else
    match db.workers.find workerId with
    | none => .error (.dbError .recordNotUpdated)
    | some worker =>
      let db := { db with
        archivedTasks := db.archivedTasks.set id archived
        activeTasks := db.activeTasks.erase id
        workers := db.workers.update workerId fun w =>
          { w with updatedAt := now, assignedTaskId := none } }
      match worker.state with
      | .gracefulShutdown => .ok (worker.state, db.withoutWorkers fun w => w = workerId)
      | .normal => .ok (worker.state, db)

def findPendingTask (uuid : Uuid) (db : Db) : Option (TaskId × ActiveTask) :=
  db.activeTasks.findWhere fun _ t => t.uuid = uuid ∧ t.state = .pending

def findReadyTask (uuid : Uuid) (db : Db) : Option (TaskId × ActiveTask) :=
  db.activeTasks.findWhere fun _ t => t.uuid = uuid ∧ t.state = .ready

def findActiveByUuid (uuid : Uuid) (db : Db) : Option (TaskId × ActiveTask) :=
  db.activeTasks.findWhere fun _ t => t.uuid = uuid

def findArchivedByUuid (uuid : Uuid) (db : Db) : Option (TaskId × ArchivedTask) :=
  db.archivedTasks.findWhere fun _ t => t.uuid = uuid

/-- The check of the user's role on a task's group that three services make. -/
def checkWriter (userId : UserId) (groupId : GroupId) (db : Db) : Except Error Unit :=
  match db.userGroup.find (userId, groupId) with
  | none => .error (.apiError (.invalidRequest "User is not in the group"))
  | some .admin | some .write => .ok ()
  | some .read => .error (.authError .permissionDenied)

def taskNotFound (uuid : Uuid) : Error := .apiError (.notFound s!"Task with uuid {uuid}")

/-- The columns that `user_change_task` sets, where the request gives them. -/
def changedTask (req : ChangeTaskReq) (now : Instant) (task : ActiveTask) : ActiveTask :=
  { task with
    updatedAt := now
    tags := req.tags.getD task.tags
    spec := req.taskSpec.getD task.spec
    timeout := req.timeout.elim task.timeout fun t => asI64 t
    priority := req.priority.getD task.priority }

def changeTask (userId : UserId) (uuid : Uuid) (req : ChangeTaskReq) (now : Instant) :
    Stmt (TaskId × ActiveTask) := fun db => do
  match db.findReadyTask uuid with
  | none => .error (taskNotFound uuid)
  | some (id, task) =>
    db.checkWriter userId task.groupId
    req.taskSpec.elim (.ok ()) checkTaskSpec
    let (task, db) ← updateTask id (changedTask req now) db
    return ((id, task), db)

def changeTaskLabels (userId : UserId) (uuid : Uuid) (labels : List String) (now : Instant) :
    Stmt Unit := fun db => do
  match db.findActiveByUuid uuid with
  | some (id, task) =>
    db.checkWriter userId task.groupId
    let (_, db) ← updateTask id (fun task => { task with updatedAt := now, labels }) db
    return ((), db)
  | none =>
    match db.findArchivedByUuid uuid with
    | none => .error (taskNotFound uuid)
    | some (id, task) =>
      db.checkWriter userId task.groupId
      let (_, db) ← updateArchivedTask id (fun task => { task with updatedAt := now, labels }) db
      return ((), db)

def cancelTask (userId : UserId) (uuid : Uuid) (now : Instant) : Stmt TaskId := fun db => do
  match db.findReadyTask uuid with
  | none => .error (taskNotFound uuid)
  | some (id, task) =>
    db.checkWriter userId task.groupId
    let (_, db) ← archive (Table.empty.set id (cancelledTask now task)) db
    return (id, db)

/-- The tasks that the statement of `cancel_tasks_by_filter` deletes. -/
def filteredTasks (filter : TaskFilter) (db : Db) : Table TaskId ActiveTask :=
  db.activeTasks.select fun _ task =>
    (db.users.find task.creatorId).any fun creator =>
      (db.groups.find task.groupId).any fun group => filter.selects creator group task

def cancelTasksByFilter (filter : TaskFilter) (now : Instant) : Stmt (List TaskId) :=
  fun db => do
    let deleted := db.filteredTasks filter
    let (_, db) ← archive (deleted.mapRows (cancelledTask now)) db
    return (deleted.keys, db)

/-- The tasks that the statement of `cancel_tasks_by_uuids` deletes for one chunk. -/
def cancellableTasks (userId : UserId) (uuids : List Uuid) (db : Db) :
    Table TaskId ActiveTask :=
  db.activeTasks.select fun _ task =>
    task.uuid ∈ uuids ∧ task.state ∈ [.ready, .pending] ∧
      (db.userGroup.find (userId, task.groupId)).any fun role => decide (role ∈ [.write, .admin])

def cancelTasksByUuids (userId : UserId) (uuids : List Uuid) (now : Instant) :
    Stmt (List (TaskId × Uuid)) := fun db => do
  let deleted := db.cancellableTasks userId uuids
  let (_, db) ← archive (deleted.mapRows (cancelledTask now)) db
  return (deleted.rows.map fun e => (e.1, e.2.uuid), db)

def addTaskCount (name : String) (now : Instant) : Stmt (Option (GroupId × Group)) := fun db =>
  let f (g : Group) : Group := { g with taskCount := g.taskCount + 1, updatedAt := now }
  match db.groups.findWhere fun _ g => g.groupName = name with
  | none => .ok (none, db)
  | some (id, group) =>
    .ok (some (id, f group), { db with
      groups := db.groups.updateWhere (fun _ g => g.groupName = name) f })

def findRoleByName (userId : UserId) (name : String) (db : Db) : Option UserGroupRole :=
  db.groups.rows.findSome? fun e =>
    if e.2.groupName = name then db.userGroup.find (userId, e.1) else none

def findUserGroup (userId : UserId) (name : Option String) (db : Db) :
    Option (GroupId × UserGroupRole × String) :=
  db.groups.rows.findSome? fun e =>
    let named : Bool := match name with
      | some name => e.2.groupName = name
      | none => (db.users.find userId).any fun u => u.username = e.2.groupName
    if named then (db.userGroup.find (userId, e.1)).map fun role => (e.1, role, e.2.groupName)
    else none

def pushedBack (now : Instant) (task : ActiveTask) : ActiveTask :=
  { task with assignedWorker := none, state := .ready, updatedAt := now }

/-- The subquery of `shutdown_workers_by_filter` selects the worker. -/
def shutdownSelects (groupId : GroupId) (req : WorkersShutdownByFilterReq) (db : Db)
    (id : WorkerId) (worker : Worker) : Bool :=
  (db.groupWorker.find (groupId, id)).any (fun role =>
    decide (role = .admin) && req.role.all fun roles => decide (role ∈ roles)) &&
  (db.users.find worker.creatorId).any (fun creator =>
    req.creatorUsername.all fun name => decide (creator.username = name)) &&
  req.tags.all (containsAll worker.tags) &&
  req.labels.all (containsAll worker.labels)

/-- What the transaction of a batch shutdown returns. -/
structure Shutdown where
  shutdownCount : Nat
  tasksToReassign : List (TaskId × ActiveTask)
  removedWorkerIds : List WorkerId

def shutdownWorkersByFilter (groupId : GroupId) (req : WorkersShutdownByFilterReq)
    (now : Instant) : Stmt Shutdown := fun db =>
  let selected := db.workers.select (db.shutdownSelects groupId req)
  match req.op with
  | .force =>
    let assigned (task : ActiveTask) : Bool :=
      task.assignedWorker.any fun w => (selected.find w).isSome
    let tasks := (db.activeTasks.select fun _ task => assigned task).mapRows (pushedBack now)
    let db := { db with
      activeTasks := db.activeTasks.updateWhere (fun _ task => assigned task) (pushedBack now) }
    .ok (⟨selected.keys.length, tasks.rows, selected.keys⟩,
      db.withoutWorkers fun id => (selected.find id).isSome)
  | .graceful =>
    let removed := selected.select fun _ w => w.assignedTaskId.isNone
    let kept := selected.select fun _ w => w.assignedTaskId.isSome
    let db := db.withoutWorkers fun id => (removed.find id).isSome
    .ok (⟨removed.keys.length + kept.keys.length, [], removed.keys⟩,
      { db with
        workers := db.workers.updateWhere (fun id _ => (kept.find id).isSome) fun w =>
          { w with state := .gracefulShutdown, updatedAt := now } })

/-- The select of `shutdown_workers_by_uuids`: one row for each group through which the user
administers the worker. -/
def administeredWorkers (userId : UserId) (uuids : List Uuid) (db : Db) :
    List (WorkerId × Worker) :=
  db.groupWorker.rows.filterMap fun e =>
    if e.2 = .admin ∧ db.userGroup.find (userId, e.1.1) = some .admin then
      (db.workers.find e.1.2).bind fun w =>
        if w.workerId ∈ uuids then some (e.1.2, w) else none
    else none

def shutdownWorkersByUuids (userId : UserId) (uuids : List Uuid) (op : WorkerShutdownOp)
    (now : Instant) : Stmt (Shutdown × List Uuid) := fun db =>
  let workers := db.administeredWorkers userId uuids
  let found := workers.map fun e => e.2.workerId
  match op with
  | .force =>
    let workerIds := workers.map Prod.fst
    let taskIds := workers.filterMap fun e => e.2.assignedTaskId
    let tasks := (db.activeTasks.select fun id _ => id ∈ taskIds).mapRows (pushedBack now)
    let db := { db with
      activeTasks := db.activeTasks.updateWhere (fun id _ => id ∈ taskIds) (pushedBack now) }
    .ok ((⟨workerIds.length, tasks.rows, workerIds⟩, found),
      db.withoutWorkers fun id => id ∈ workerIds)
  | .graceful =>
    let without := (workers.filter fun e => e.2.assignedTaskId.isNone).map Prod.fst
    let withTask := (workers.filter fun e => e.2.assignedTaskId.isSome).map Prod.fst
    let db := db.withoutWorkers fun id => id ∈ without
    .ok ((⟨without.length + withTask.length, [], without⟩, found),
      { db with
        workers := db.workers.updateWhere (fun id _ => id ∈ withTask) fun w =>
          { w with state := .gracefulShutdown, updatedAt := now } })

/-- A task as `find_task_by_uuid` finds it. -/
inductive StoredTask where
  | active (id : TaskId) (task : ActiveTask)
  | archived (id : TaskId) (task : ArchivedTask)

def StoredTask.uuid : StoredTask → Uuid
  | active _ t => t.uuid
  | archived _ t => t.uuid

def StoredTask.groupId : StoredTask → GroupId
  | active _ t => t.groupId
  | archived _ t => t.groupId

def presignedUploadLink (uuid : Uuid) (contentType : ArtifactContentType) (length : Int) :
    Except Error PresignedUrl :=
  if length < 0 then .error (.apiError (.invalidContentLength length))
  else .ok ⟨uuid, contentType, length⟩

/-- Update the task to reflect the upload of an artifact. -/
def touchStored (now : Instant) : StoredTask → Db → Except Error Db
  | .active id _, db => Prod.snd <$> updateTask id (fun task => { task with updatedAt := now }) db
  | .archived id _, db =>
    Prod.snd <$> updateArchivedTask id (fun task => { task with updatedAt := now }) db

def storeArtifact (task : StoredTask) (group : Group) (contentType : ArtifactContentType)
    (length : Int) (now : Instant) : Stmt (Bool × PresignedUrl) := fun db =>
  let found := db.artifacts.find (task.uuid, contentType)
  let size := found.elim length fun a => max length a.size
  let used := asI64 (group.storageUsed + asI64 (size - found.elim 0 Artifact.size))
  if used > group.storageQuota then .error (.apiError .quotaExceeded)
  else do
    let url ← presignedUploadLink task.uuid contentType length
    let artifact : Artifact :=
      { size, createdAt := found.elim now Artifact.createdAt, updatedAt := now }
    if db.groups.find task.groupId = none then .error (.dbError .recordNotUpdated)
    else .ok ((found.isSome, url), { db with
      artifacts := db.artifacts.set (task.uuid, contentType) artifact
      groups := db.groups.update task.groupId fun g =>
        { g with storageUsed := used, updatedAt := now } })

def uploadArtifact (task : StoredTask) (group : Group) (contentType : ArtifactContentType)
    (length : Int) (now : Instant) : Stmt (Bool × PresignedUrl) := fun db => do
  let db ← touchStored now task db
  storeArtifact task group contentType length now db

end Db
end Mitosis
