import Mitosis.Lib.Sessions
import Mitosis.Storage

namespace Mitosis
set_option autoImplicit true

namespace Storage

def uploadValidSecs : Nat := 3600

structure DownloadResp where
  url : DownloadLink
  size : Int
  deriving DecidableEq

structure ArtifactDownloadItem where
  uuid : Uuid
  url : DownloadLink
  size : Int
  deriving DecidableEq

/-- The filter of `ArtifactsDeleteByFilterReq` and `ArtifactsDownloadByFilterReq`. -/
structure ArtifactsByFilterReq where
  creatorUsernames : Option (List String)
  groupName : Option String
  tags : Option (List String)
  labels : Option (List String)
  states : Option (List TaskState)
  exitStatus : Option String
  priority : Option String
  reporterUuid : Option Uuid
  contentType : ArtifactContentType

def ArtifactsByFilterReq.query (req : ArtifactsByFilterReq) : TasksQueryReq where
  creatorUsernames := req.creatorUsernames
  groupName := req.groupName
  tags := req.tags
  labels := req.labels
  states := req.states
  exitStatus := req.exitStatus
  priority := req.priority
  reporterUuid := req.reporterUuid
  limit := none
  offset := none
  count := false

def invalid (msg : String) : Error := .apiError (.invalidRequest msg)

def notFound (msg : String) : Error := .apiError (.notFound msg)

def displayed : ArtifactContentType → String
  | .result => "result.tar.gz"
  | .execLog => "exec-log.tar.gz"
  | .stdLog => "std-log.tar.gz"

namespace Service
open Fallible (attempt fail okOr ofExcept)

def findTaskByUuid (uuid : Uuid) : Service Db.StoredTask := do
  match ← select (.db (.activeByUuid uuid)) with
  | some (id, task) => return .active id task
  | none =>
    let task ← select (.db (.archivedByUuid uuid))
    let (id, task) ← okOr (notFound s!"Task {uuid} not found") task
    return .archived id task

def queriedGroup (userId : UserId) : Option String → Service String
  | some name => pure name
  | none => do
    let user ← select (.db (.user userId))
    let user ← okOr (notFound "User") user
    return user.username

/-- `check_task_list_query`: the query with its group name filled in. -/
def checkTaskListQuery (userId : UserId) (query : TasksQueryReq) (role : UserGroupRole) :
    Service (TasksQueryReq × String) := do
  ofExcept query.check
  let groupName ← queriedGroup userId query.groupName
  match ← select (.db (.roleByName userId groupName)) with
  | some r =>
    if r.toValue ≥ role.toValue then return ({ query with groupName := some groupName }, groupName)
    else fail (.authError .permissionDenied)
  | none => fail (invalid s!"Group with name {groupName} not found or user is not in the group")

def queryTasksByFilter (userId : UserId) (query : TasksQueryReq) : Service TasksQueryResp := do
  let (query, groupName) ← checkTaskListQuery userId query .read
  let filter ← ofExcept (applyTaskFilters query)
  if query.count then
    let active ← select (.tasks (.activeCount filter query.limit query.offset))
    let archived ← select (.tasks
      (.archivedCount filter query.reporterUuid query.limit query.offset))
    return ⟨active.getD 0 + archived.getD 0, [], groupName⟩
  else
    let active ← select (.tasks (.activeInfos filter query.limit query.offset))
    let archived ← select (.tasks
      (.archivedInfos filter query.reporterUuid query.limit query.offset))
    return ⟨(active ++ archived).length, active ++ archived, groupName⟩

def getTaskByUuid (uuid : Uuid) : Service TaskQueryResp := do
  let active ← select (.tasks (.activeInfo uuid))
  let info ← match active with
    | some info => pure (some info)
    | none => select (.tasks (.archivedInfo uuid))
  let info ← okOr (notFound s!"Task with uuid {uuid}") info
  let artifacts ← select (.tasks (.artifactsOf uuid))
  return ⟨info, artifacts⟩

/-- The new `storage_used` of a group, unless it exceeds the quota. -/
def checkQuota (group : Group) (growth : Int) : Service Int :=
  let used := asI64 (group.storageUsed + asI64 growth)
  if used > group.storageQuota then fail (.apiError .quotaExceeded) else pure used

def allocate (object : Object) (group : GroupId × Group) (length : Int) (now : Instant)
    (found : Option Int) (write : Int → Update) : Service (Bool × UploadLink) := do
  let size := found.elim length (max length)
  let growth := size - found.getD 0
  let used ← checkQuota group.2 growth
  let url ← issue (.presignUpload object length)
  update (write size)
  update (.updateGroup group growth used now)
  return (found.isSome, url)

def groupUploadArtifact (task : Db.StoredTask) (contentType : ArtifactContentType)
    (contentLength : Nat) : Service (Bool × UploadLink) := do
  let now ← now
  let length := asI64 contentLength
  let group ← select (.db (.group task.groupId))
  let group ← okOr (invalid "Group for the task not found") group
  if group.state ≠ .active then fail (invalid "Group is not active")
  else transaction do
    update (.touchTask task now)
    let artifact ← select (.artifact task.uuid contentType)
    allocate (.artifact task.uuid contentType) (task.groupId, group) length now
      (artifact.map ArtifactRow.size) fun size => match artifact with
        | some artifact => .updateArtifact artifact size now
        | none => .insertArtifact task.uuid contentType size now

def userUploadArtifact (userId : UserId) (uuid : Uuid) (contentType : ArtifactContentType)
    (contentLength : Nat) : Service (Bool × UploadLink) := do
  let task ← findTaskByUuid uuid
  let role ← select (.db (.userGroupRole userId task.groupId))
  let role ← okOr (.authError .permissionDenied) role
  if role = .read then fail (.authError .permissionDenied)
  else groupUploadArtifact task contentType contentLength

/-- `report_task` with an upload. -/
def workerUploadArtifact (workerId : WorkerId) (id : TaskId) (contentType : ArtifactContentType)
    (contentLength : Nat) : Service (Bool × UploadLink) := do
  let task ← select (.db (.task id))
  let task ← okOr (notFound s!"Task {id} not found") task
  if task.assignedWorker ≠ some workerId then fail (notFound s!"Task {id} not found")
  else groupUploadArtifact (.active id task) contentType contentLength

def checkAttachmentKey (key : String) : Bool :=
  key.utf8ByteSize ≥ 1024 || ["/./", "/../", "//"].any fun p => decide (p.toList <:+: key.toList)

def userUploadAttachment (userId : UserId) (groupName key : String) (contentLength : Nat) :
    Service (Bool × UploadLink) := do
  if checkAttachmentKey s!"{groupName}/{key}" then fail (invalid
    "Invalid attachment key. Should be a relative path pointing to a single location without \"./\" or \"../\"")
  else
    let length := asI64 contentLength
    let now ← now
    transaction do
      let group ← select (.groupByName groupName)
      let group ← okOr (notFound s!"Group {groupName}") group
      if group.2.state ≠ .active then fail (invalid "Group is not active")
      else
        let role ← select (.db (.userGroupRole userId group.1))
        let role ← okOr (.authError .permissionDenied) role
        if role = .read then fail (.authError .permissionDenied)
        else
          let attachment ← select (.attachment group.1 key)
          allocate (.attachment groupName key) group length now
            (attachment.map AttachmentRow.size) fun size => match attachment with
              | some attachment => .updateAttachment attachment size now
              | none => .insertAttachment group.1 key size now

def saturatingSub (m n : Int) : Int := max (-2 ^ 63) (min (2 ^ 63 - 1) (m - n))

def release (object : Object) (groupId : GroupId) (size : Int) (msg : String)
    (delete : Update) : Service Unit :=
  transaction do
    issue (.deleteObject object)
    let group ← select (.db (.group groupId))
    let group ← okOr (invalid msg) group
    let used := saturatingSub group.storageUsed size
    let now ← now
    update (.updateGroup (groupId, group) (-size) used now)
    update delete

def deleteArtifact (task : Db.StoredTask) (contentType : ArtifactContentType) (admin : Bool) :
    Service Unit := do
  let artifact ← select (.artifact task.uuid contentType)
  let artifact ← okOr (notFound
    s!"Artifact with uuid {task.uuid} and content type {displayed contentType} not found") artifact
  let now ← now
  if !admin && artifact.updatedAt + uploadValidSecs > now then
    fail (invalid "Cannot delete artifact that has been updated in the last hour")
  else
    release (.artifact task.uuid contentType) task.groupId artifact.size
      "Group for the artifact not found" (.deleteArtifact artifact)

def userDeleteArtifact (userId : UserId) (uuid : Uuid) (contentType : ArtifactContentType) :
    Service Unit := do
  let task ← findTaskByUuid uuid
  let role ← select (.db (.userGroupRole userId task.groupId))
  let role ← okOr (.authError .permissionDenied) role
  if role = .read then fail (.authError .permissionDenied)
  else deleteArtifact task contentType false

def adminDeleteArtifact (uuid : Uuid) (contentType : ArtifactContentType) : Service Unit := do
  let task ← findTaskByUuid uuid
  deleteArtifact task contentType true

def artifactsOfChunks (contentType : ArtifactContentType) :
    List (List Uuid) → Service (List ArtifactRow)
  | [] => pure []
  | chunk :: chunks => do
    let artifacts ← select (.artifacts chunk contentType)
    let rest ← artifactsOfChunks contentType chunks
    return artifacts ++ rest

def deleteListedArtifact (userId : UserId) (contentType : ArtifactContentType)
    (artifact : ArtifactRow) : Service Bool := do
  match ← attempt (findTaskByUuid artifact.taskId) with
  | .error _ => return false
  | .ok task =>
    match ← select (.db (.userGroupRole userId task.groupId)) with
    | none => return false
    | some role =>
      if role = .read then return false
      else
        let now ← now
        if artifact.updatedAt + uploadValidSecs ≤ now then
          match ← attempt (deleteArtifact task contentType false) with
          | .ok _ => return true
          | .error _ => return false
        else return false

def deleteListedArtifacts (userId : UserId) (contentType : ArtifactContentType) :
    List ArtifactRow → Service (List Uuid)
  | [] => pure []
  | artifact :: artifacts => do
    let deleted ← deleteListedArtifact userId contentType artifact
    let rest ← deleteListedArtifacts userId contentType artifacts
    return if deleted then artifact.taskId :: rest else rest

def deleteArtifactsByUuidsInternal (userId : UserId) (uuids : List Uuid)
    (contentType : ArtifactContentType) : Service (Nat × List Uuid) := do
  let artifacts ← artifactsOfChunks contentType (uuids.toChunks 2048)
  let deleted ← deleteListedArtifacts userId contentType artifacts
  return (deleted.length, uuids.filter fun uuid => uuid ∉ deleted)

def batchDeleteArtifactsByFilter (userId : UserId) (req : ArtifactsByFilterReq) :
    Service Nat := do
  let resp ← queryTasksByFilter userId req.query
  let (deletedCount, _) ← deleteArtifactsByUuidsInternal userId
    (resp.tasks.map TaskQueryInfo.uuid) req.contentType
  return deletedCount

def batchDeleteArtifactsByUuids (userId : UserId) (uuids : List Uuid)
    (contentType : ArtifactContentType) : Service (Nat × List Uuid) :=
  if uuids.isEmpty then fail (invalid "UUIDs list cannot be empty")
  else deleteArtifactsByUuidsInternal userId uuids contentType

def attachmentNotFound (groupName key : String) : Error :=
  notFound s!"Attachment of group {groupName} and key {key}"

def getAttachmentFromDb (userId : UserId) (groupName key : String) (write admin : Bool) :
    Service AttachmentRow := do
  let group ← select (.groupByName groupName)
  let group ← okOr (attachmentNotFound groupName key) group
  if !admin then
    let role ← select (.db (.userGroupRole userId group.1))
    let role ← okOr (.authError .permissionDenied) role
    if write && role = .read then fail (.authError .permissionDenied)
    else
      let attachment ← select (.attachment group.1 key)
      let attachment ← okOr (attachmentNotFound groupName key) attachment
      return attachment
  else
    let attachment ← select (.attachment group.1 key)
    let attachment ← okOr (attachmentNotFound groupName key) attachment
    return attachment

def deleteAttachment (attachment : AttachmentRow) (groupName key : String) : Service Unit :=
  release (.attachment groupName key) attachment.groupId attachment.size
    "Group for the attachment not found" (.deleteAttachment attachment)

def userDeleteAttachment (userId : UserId) (groupName key : String) : Service Unit := do
  let attachment ← getAttachmentFromDb userId groupName key true false
  let now ← now
  if attachment.updatedAt + uploadValidSecs > now then
    fail (invalid "Cannot delete attachment that has been updated in the last hour")
  else deleteAttachment attachment groupName key

def adminDeleteAttachment (groupName key : String) : Service Unit := do
  let attachment ← getAttachmentFromDb 0 groupName key true true
  deleteAttachment attachment groupName key

/-- The check of `query_attachments_by_filter` that the user has some role in the group. -/
def checkMember (userId : UserId) (groupName : String) : Service Unit := do
  let role ← select (.db (.roleByName userId groupName))
  match role with
  | some _ => pure ()
  | none => fail (invalid s!"Group with name {groupName} not found or user is not in the group")

def deleteListedAttachments (groupName : String) : List AttachmentRow → Service (List String)
  | [] => pure []
  | attachment :: attachments => do
    let now ← now
    if attachment.updatedAt + uploadValidSecs ≤ now then
      let deleted ← attempt (deleteAttachment attachment groupName attachment.key)
      let rest ← deleteListedAttachments groupName attachments
      return match deleted with
        | .ok _ => attachment.key :: rest
        | .error _ => rest
    else deleteListedAttachments groupName attachments

def deleteAttachmentsByKeysInternal (userId : UserId) (groupName : String)
    (keys : List String) : Service (Nat × List String) := do
  let group ← select (.groupByName groupName)
  let group ← okOr (notFound s!"Group {groupName} not found") group
  let role ← select (.db (.userGroupRole userId group.1))
  let role ← okOr (.authError .permissionDenied) role
  if role = .read then fail (.authError .permissionDenied)
  else
    let attachments ← select (.attachments group.1 keys)
    let deleted ← deleteListedAttachments groupName attachments
    return (deleted.length, keys.filter fun key => key ∉ deleted)

def batchDeleteAttachmentsByFilter (userId : UserId) (groupName : String)
    (key : Option String) (limit offset : Option Nat) : Service Nat := do
  checkMember userId groupName
  let infos ← select (.attachmentInfos groupName (key.getD "") limit offset)
  let (deletedCount, _) ← deleteAttachmentsByKeysInternal userId groupName
    (infos.map AttachmentQueryInfo.key)
  return deletedCount

def batchDeleteAttachmentsByKeys (userId : UserId) (groupName : String) (keys : List String) :
    Service (Nat × List String) := do
  checkMember userId groupName
  if keys.isEmpty then fail (invalid "Keys list cannot be empty")
  else deleteAttachmentsByKeysInternal userId groupName keys

def presignDownloads (contentType : ArtifactContentType) :
    List ArtifactRow → Service (List ArtifactDownloadItem)
  | [] => pure []
  | artifact :: artifacts => do
    let url ← issue (.presignDownload (.artifact artifact.taskId contentType) artifact.size 86400)
    let rest ← presignDownloads contentType artifacts
    return ⟨artifact.taskId, url, artifact.size⟩ :: rest

def generateArtifactDownloads (uuids : List Uuid) (contentType : ArtifactContentType) :
    Service (List ArtifactDownloadItem) := do
  let artifacts ← artifactsOfChunks contentType (uuids.toChunks 2048)
  presignDownloads contentType artifacts

def batchDownloadArtifactsByFilter (userId : UserId) (req : ArtifactsByFilterReq) :
    Service (List ArtifactDownloadItem) := do
  let resp ← queryTasksByFilter userId req.query
  generateArtifactDownloads (resp.tasks.map TaskQueryInfo.uuid) req.contentType

end Service

inductive Call where
  | userUploadArtifact (userId : UserId) (uuid : Uuid) (contentType : ArtifactContentType)
      (contentLength : Nat)
  | workerUploadArtifact (workerId : WorkerId) (id : TaskId) (contentType : ArtifactContentType)
      (contentLength : Nat)
  | userUploadAttachment (userId : UserId) (groupName key : String) (contentLength : Nat)
  | userDeleteArtifact (userId : UserId) (uuid : Uuid) (contentType : ArtifactContentType)
  | adminDeleteArtifact (uuid : Uuid) (contentType : ArtifactContentType)
  | batchDeleteArtifactsByFilter (userId : UserId) (req : ArtifactsByFilterReq)
  | batchDeleteArtifactsByUuids (userId : UserId) (uuids : List Uuid)
      (contentType : ArtifactContentType)
  | userDeleteAttachment (userId : UserId) (groupName key : String)
  | adminDeleteAttachment (groupName key : String)
  | batchDeleteAttachmentsByFilter (userId : UserId) (groupName : String) (key : Option String)
      (limit offset : Option Nat)
  | batchDeleteAttachmentsByKeys (userId : UserId) (groupName : String) (keys : List String)

/-- What a finished request hands to its caller. -/
inductive Reply where
  | unit
  | upload (exist : Bool) (url : UploadLink)
  | deleted (count : Nat)
  | deletedUuids (count : Nat) (failedUuids : List Uuid)
  | deletedKeys (count : Nat) (failedKeys : List String)
  deriving DecidableEq

open Fallible (once) in
def program : Call → Prog Cmd Cmd.Resp (Flow (Except Error Reply))
  | .userUploadArtifact userId uuid contentType contentLength =>
    once (fun r => .upload r.1 r.2)
      (Service.userUploadArtifact userId uuid contentType contentLength)
  | .workerUploadArtifact workerId id contentType contentLength =>
    once (fun r => .upload r.1 r.2)
      (Service.workerUploadArtifact workerId id contentType contentLength)
  | .userUploadAttachment userId groupName key contentLength =>
    once (fun r => .upload r.1 r.2)
      (Service.userUploadAttachment userId groupName key contentLength)
  | .userDeleteArtifact userId uuid contentType =>
    once (fun _ => .unit) (Service.userDeleteArtifact userId uuid contentType)
  | .adminDeleteArtifact uuid contentType =>
    once (fun _ => .unit) (Service.adminDeleteArtifact uuid contentType)
  | .batchDeleteArtifactsByFilter userId req =>
    once .deleted (Service.batchDeleteArtifactsByFilter userId req)
  | .batchDeleteArtifactsByUuids userId uuids contentType =>
    once (fun r => .deletedUuids r.1 r.2)
      (Service.batchDeleteArtifactsByUuids userId uuids contentType)
  | .userDeleteAttachment userId groupName key =>
    once (fun _ => .unit) (Service.userDeleteAttachment userId groupName key)
  | .adminDeleteAttachment groupName key =>
    once (fun _ => .unit) (Service.adminDeleteAttachment groupName key)
  | .batchDeleteAttachmentsByFilter userId groupName key limit offset =>
    once .deleted (Service.batchDeleteAttachmentsByFilter userId groupName key limit offset)
  | .batchDeleteAttachmentsByKeys userId groupName keys =>
    once (fun r => .deletedKeys r.1 r.2)
      (Service.batchDeleteAttachmentsByKeys userId groupName keys)

/-- What the rest of the coordinator does meanwhile. -/
inductive Env where
  | tick
  | tasks (activeTasks : Table TaskId ActiveTask) (archivedTasks : Table TaskId ArchivedTask)
  | roles (userGroup : Table (UserId × GroupId) UserGroupRole)

def Store.owners (s : Store) : List (Uuid × GroupId) :=
  s.db.activeTasks.rows.map (fun e => (e.2.uuid, e.2.groupId)) ++
    s.db.archivedTasks.rows.map fun e => (e.2.uuid, e.2.groupId)

def Env.run (s : Infra) : Env → Option Infra
  | .tick => some { s with clock := s.clock + 1 }
  | .tasks activeTasks archivedTasks =>
    let old := s.txns.committed
    let new := { old with db := { old.db with activeTasks, archivedTasks } }
    if old.owners ⊆ new.owners ∧ new.owners.Pairwise (fun o o' => o.1 = o'.1 → o.2 = o'.2) then
      some { s with txns := { s.txns with committed := new } }
    else none
  | .roles userGroup =>
    let old := s.txns.committed
    some { s with txns := { s.txns with committed := { old with db := { old.db with userGroup } } } }

def system : System Infra Cmd Cmd.Resp Call (Except Error Reply) (Option DbErr) Env where
  program := program
  exec := Cmd.exec
  env e s := e.run s

abbrev State := Sessions Infra Cmd Cmd.Resp Call (Except Error Reply)

def initial (s : Store) (next : Nat) (clock : Instant) : State := ⟨⟨⟨s, .empty⟩, next, clock⟩, [], []⟩

namespace Demo

def store : Store where
  db := {
    users := Table.empty.set 1 ⟨"u", .active⟩
    groups := Table.empty.set 1 ⟨"u", 0, .active, 1, 1000, 0⟩
    userGroup := Table.empty.set (1, 1) .admin
    workers := .empty
    groupWorker := .empty
    activeTasks := Table.empty.set 1
      ⟨1, 1, 1, 7, [], [], 0, 0, .ready, none, 10, 0, ⟨[], [], [], false, none⟩, none, none, none⟩
    archivedTasks := .empty
    artifacts := .empty
    workerSeq := 1
    taskSeq := 2 }
  artifactIds := .empty
  attachments := .empty
  attachmentIds := .empty

def steps (i n : Nat) : List (Act Call (Option DbErr) Env) := List.replicate n (.step i none)

end Demo
end Storage
end Mitosis
