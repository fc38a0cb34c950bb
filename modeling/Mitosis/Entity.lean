import Mitosis.Lib.Table

namespace Mitosis
set_option autoImplicit true

abbrev UserId := Nat
abbrev GroupId := Nat
abbrev WorkerId := Nat
abbrev TaskId := Nat
/-- Version 4 uuids are compared only for equality and never drawn twice. -/
abbrev Uuid := Nat
abbrev Instant := Nat

inductive UserState where
  | active | locked | deleted
  deriving DecidableEq

inductive GroupState where
  | active | locked | deleted
  deriving DecidableEq

inductive TaskState where
  | pending | ready | running | finished | cancelled | unknown
  deriving DecidableEq

inductive WorkerState where
  | normal | gracefulShutdown
  deriving DecidableEq

inductive UserGroupRole where
  | read | write | admin
  deriving DecidableEq

/-- The integer stored for a role, by which roles are ordered. -/
def UserGroupRole.toValue : UserGroupRole → Nat
  | .read => 0
  | .write => 1
  | .admin => 2

inductive GroupWorkerRole where
  | read | write | admin
  deriving DecidableEq

def GroupWorkerRole.toValue : GroupWorkerRole → Nat
  | .read => 0
  | .write => 1
  | .admin => 2

def GroupWorkerRole.fromStr (s : String) : Option GroupWorkerRole :=
  if s ∈ ["read", "Read", "READ"] then some .read
  else if s ∈ ["write", "Write", "WRITE"] then some .write
  else if s ∈ ["admin", "Admin", "ADMIN"] then some .admin
  else none

inductive ArtifactContentType where
  | result | execLog | stdLog
  deriving DecidableEq

inductive TaskExecState where
  | workerExited | fetchResource | fetchResourceFinished | fetchResourceError
  | fetchResourceTimeout | fetchResourceNotFound | fetchResourceForbidden
  | watch | watchFinished | watchTimeout
  | execPending | execSpawned | execFinished | execTimeout
  | uploadResult | uploadFinishedResult | uploadCancelledResult
  | uploadResultFinished | uploadResultTimeout | taskCommitted | unknown
  deriving DecidableEq

inductive RemoteResource where
  | artifact (uuid : Uuid) (contentType : ArtifactContentType)
  | attachment (key : String)
  deriving DecidableEq

structure RemoteResourceDownload where
  remoteFile : RemoteResource
  localPath : String
  deriving DecidableEq

structure TaskSpec where
  args : List String
  envs : List (String × String)
  resources : List RemoteResourceDownload
  terminalOutput : Bool
  watch : Option (Uuid × TaskExecState)
  deriving DecidableEq

inductive TaskResultMessage where
  | fetchResourceTimeout | execTimeout | uploadResultTimeout | resourceNotFound
  | resourceForbidden | watchTimeout | userCancellation | submitNewTaskFailed
  deriving DecidableEq

structure TaskResultSpec where
  exitStatus : Int
  msg : Option TaskResultMessage
  deriving DecidableEq

def TaskResultSpec.userCancellation : TaskResultSpec := ⟨0, some .userCancellation⟩

structure User where
  username : String
  state : UserState
  deriving DecidableEq

structure Group where
  groupName : String
  updatedAt : Instant
  state : GroupState
  taskCount : Int
  storageQuota : Int
  storageUsed : Int
  deriving DecidableEq

structure Worker where
  workerId : Uuid
  creatorId : UserId
  tags : List String
  labels : List String
  createdAt : Instant
  updatedAt : Instant
  state : WorkerState
  lastHeartbeat : Instant
  assignedTaskId : Option TaskId
  deriving DecidableEq

structure ActiveTask where
  creatorId : UserId
  groupId : GroupId
  taskId : Int
  uuid : Uuid
  tags : List String
  labels : List String
  createdAt : Instant
  updatedAt : Instant
  state : TaskState
  assignedWorker : Option WorkerId
  timeout : Int
  priority : Int
  spec : TaskSpec
  result : Option TaskResultSpec
  upstreamTaskUuid : Option Uuid
  downstreamTaskUuid : Option Uuid
  deriving DecidableEq

structure ArchivedTask where
  creatorId : UserId
  groupId : GroupId
  taskId : Int
  uuid : Uuid
  tags : List String
  labels : List String
  createdAt : Instant
  updatedAt : Instant
  state : TaskState
  assignedWorker : Option WorkerId
  timeout : Int
  priority : Int
  spec : TaskSpec
  result : Option TaskResultSpec
  upstreamTaskUuid : Option Uuid
  downstreamTaskUuid : Option Uuid
  reporterUuid : Option Uuid
  deriving DecidableEq

structure Artifact where
  size : Int
  createdAt : Instant
  updatedAt : Instant
  deriving DecidableEq

/-- The task's state does not wait for a worker: some worker took it. -/
def TaskState.isTaken : TaskState → Bool
  | .running | .finished | .cancelled => true
  | _ => false

inductive AuthError where
  | invalidToken | wrongCredentials | permissionDenied
  deriving DecidableEq

inductive ApiError where
  | internalServerError
  | authError (e : AuthError)
  | invalidRequest (msg : String)
  | notFound (msg : String)
  | quotaExceeded
  | invalidContentLength (length : Int)
  deriving DecidableEq

/-- The database errors the services can meet: a lost connection, a transaction that the
database aborted for a conflict, an update by primary key that matches no row, and a
violated constraint. -/
inductive DbErr where
  | conn | serialization | recordNotUpdated | constraint | query
  deriving DecidableEq

inductive Error where
  | dbError (e : DbErr)
  | custom (msg : String)
  | authError (e : AuthError)
  | apiError (e : ApiError)
  deriving DecidableEq

/-- The conversion of errors at the boundary of the HTTP interface. -/
def Error.toApiError : Error → ApiError
  | .authError e => .authError e
  | .apiError e => e
  | _ => .internalServerError

end Mitosis
