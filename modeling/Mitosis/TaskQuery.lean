import Mitosis.Query

namespace Mitosis
set_option autoImplicit true

structure TaskQueryInfo where
  uuid : Uuid
  creatorUsername : String
  groupName : String
  taskId : Int
  tags : List String
  labels : List String
  createdAt : Instant
  updatedAt : Instant
  state : TaskState
  timeout : Int
  priority : Int
  spec : TaskSpec
  result : Option TaskResultSpec
  upstreamTaskUuid : Option Uuid
  downstreamTaskUuid : Option Uuid
  reporterUuid : Option Uuid
  deriving DecidableEq

structure TasksQueryResp where
  count : Nat
  tasks : List TaskQueryInfo
  groupName : String
  deriving DecidableEq

structure ArtifactQueryResp where
  contentType : ArtifactContentType
  size : Int
  createdAt : Instant
  updatedAt : Instant
  deriving DecidableEq

structure TaskQueryResp where
  info : TaskQueryInfo
  artifacts : List ArtifactQueryResp
  deriving DecidableEq

def ActiveTask.info (task : ActiveTask) (creator : User) (group : Group) : TaskQueryInfo where
  uuid := task.uuid
  creatorUsername := creator.username
  groupName := group.groupName
  taskId := task.taskId
  tags := task.tags
  labels := task.labels
  createdAt := task.createdAt
  updatedAt := task.updatedAt
  state := task.state
  timeout := task.timeout
  priority := task.priority
  spec := task.spec
  result := task.result
  upstreamTaskUuid := task.upstreamTaskUuid
  downstreamTaskUuid := task.downstreamTaskUuid
  reporterUuid := none

def ArchivedTask.info (task : ArchivedTask) (creator : User) (group : Group) : TaskQueryInfo where
  uuid := task.uuid
  creatorUsername := creator.username
  groupName := group.groupName
  taskId := task.taskId
  tags := task.tags
  labels := task.labels
  createdAt := task.createdAt
  updatedAt := task.updatedAt
  state := task.state
  timeout := task.timeout
  priority := task.priority
  spec := task.spec
  result := task.result
  upstreamTaskUuid := task.upstreamTaskUuid
  downstreamTaskUuid := task.downstreamTaskUuid
  reporterUuid := task.reporterUuid

def TaskFilter.selectsArchived (f : TaskFilter) (reporterUuid : Option Uuid) (creator : User)
    (group : Group) (task : ArchivedTask) : Bool :=
  reporterUuid.all (fun u => decide (task.reporterUuid = some u)) &&
  f.creatorUsernames.all (fun us => decide (creator.username ∈ us)) &&
  f.groupName.all (fun g => decide (group.groupName = g)) &&
  f.tags.all (containsAll task.tags) &&
  f.labels.all (containsAll task.labels) &&
  f.states.all (fun ss => decide (task.state ∈ ss)) &&
  f.exitStatus.all (fun op => task.result.any fun r => op.holdsText (toString r.exitStatus)) &&
  f.priority.all fun op => op.holds task.priority

def page (limit offset : Option Nat) (rows : List α) : List α :=
  let rows := rows.drop (offset.getD 0)
  limit.elim rows rows.take

def TasksQueryReq.check (query : TasksQueryReq) : Except Error Unit :=
  let empty (xs : Option (List String)) : Bool := xs.any List.isEmpty
  if empty query.tags then
    .error (.apiError (.invalidRequest "Tags cannot be empty if specified"))
  else if empty query.labels then
    .error (.apiError (.invalidRequest "Labels cannot be empty if specified"))
  else if empty query.creatorUsernames then
    .error (.apiError (.invalidRequest "Creator username cannot be empty if specified"))
  else if query.states.any List.isEmpty then
    .error (.apiError (.invalidRequest "State cannot be empty if specified"))
  else .ok ()

namespace Db

def joined (db : Db) (creatorId : UserId) (groupId : GroupId) : Option (User × Group) :=
  (db.users.find creatorId).bind fun creator => (db.groups.find groupId).map (creator, ·)

def activeInfos (filter : TaskFilter) (db : Db) : List TaskQueryInfo :=
  db.activeTasks.rows.filterMap fun e =>
    (db.joined e.2.creatorId e.2.groupId).bind fun j =>
      if filter.selects j.1 j.2 e.2 then some (e.2.info j.1 j.2) else none

def archivedInfos (filter : TaskFilter) (reporterUuid : Option Uuid) (db : Db) :
    List TaskQueryInfo :=
  db.archivedTasks.rows.filterMap fun e =>
    (db.joined e.2.creatorId e.2.groupId).bind fun j =>
      if filter.selectsArchived reporterUuid j.1 j.2 e.2 then some (e.2.info j.1 j.2) else none

/-- The two statements of `get_task_by_uuid`. -/
def activeInfo (uuid : Uuid) (db : Db) : Option TaskQueryInfo :=
  db.activeTasks.rows.findSome? fun e =>
    if e.2.uuid = uuid then
      (db.joined e.2.creatorId e.2.groupId).map fun j => e.2.info j.1 j.2
    else none

def archivedInfo (uuid : Uuid) (db : Db) : Option TaskQueryInfo :=
  db.archivedTasks.rows.findSome? fun e =>
    if e.2.uuid = uuid then
      (db.joined e.2.creatorId e.2.groupId).map fun j => e.2.info j.1 j.2
    else none

def artifactsOf (uuid : Uuid) (db : Db) : List ArtifactQueryResp :=
  db.artifacts.rows.filterMap fun e =>
    if e.1.1 = uuid then some ⟨e.1.2, e.2.size, e.2.createdAt, e.2.updatedAt⟩ else none

end Db

/-- The statements that read tasks for a query. -/
inductive TaskSelect where
  | activeInfos (filter : TaskFilter) (limit offset : Option Nat)
  | archivedInfos (filter : TaskFilter) (reporterUuid : Option Uuid) (limit offset : Option Nat)
  | activeCount (filter : TaskFilter) (limit offset : Option Nat)
  | archivedCount (filter : TaskFilter) (reporterUuid : Option Uuid) (limit offset : Option Nat)
  | activeInfo (uuid : Uuid)
  | archivedInfo (uuid : Uuid)
  | artifactsOf (uuid : Uuid)

namespace TaskSelect

abbrev Ret : TaskSelect → Type
  | activeInfos _ _ _ => List TaskQueryInfo
  | archivedInfos _ _ _ _ => List TaskQueryInfo
  | activeCount _ _ _ => Option Nat
  | archivedCount _ _ _ _ => Option Nat
  | activeInfo _ => Option TaskQueryInfo
  | archivedInfo _ => Option TaskQueryInfo
  | artifactsOf _ => List ArtifactQueryResp

def eval (db : Db) : (q : TaskSelect) → q.Ret
  | activeInfos filter limit offset => page limit offset (db.activeInfos filter)
  | archivedInfos filter reporterUuid limit offset =>
    page limit offset (db.archivedInfos filter reporterUuid)
  | activeCount filter limit offset => (page limit offset [(db.activeInfos filter).length]).head?
  | archivedCount filter reporterUuid limit offset =>
    (page limit offset [(db.archivedInfos filter reporterUuid).length]).head?
  | activeInfo uuid => db.activeInfo uuid
  | archivedInfo uuid => db.archivedInfo uuid
  | artifactsOf uuid => db.artifactsOf uuid

end TaskSelect
end Mitosis
