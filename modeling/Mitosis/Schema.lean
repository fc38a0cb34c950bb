import Mitosis.Entity

namespace Mitosis
set_option autoImplicit true

structure SubmitTaskReq where
  groupName : String
  tags : List String
  labels : List String
  timeout : Nat
  priority : Int
  taskSpec : TaskSpec

structure SubmitTaskResp where
  taskId : Int
  uuid : Uuid
  deriving DecidableEq

structure ChangeTaskReq where
  tags : Option (List String)
  timeout : Option Nat
  priority : Option Int
  taskSpec : Option TaskSpec

structure WorkerTaskResp where
  id : TaskId
  uuid : Uuid
  timeout : Nat
  upstreamTaskUuid : Option Uuid
  spec : TaskSpec
  deriving DecidableEq

inductive ReportTaskOp where
  | finish
  | cancel
  | submit (req : SubmitTaskReq)
  | commit (res : TaskResultSpec)
  | upload (contentType : ArtifactContentType) (contentLength : Nat)

/-- The link a client uploads to: the object and the number of bytes it is signed for. -/
structure PresignedUrl where
  uuid : Uuid
  contentType : ArtifactContentType
  length : Int
  deriving DecidableEq

structure TasksCancelByFilterReq where
  creatorUsernames : Option (List String)
  groupName : Option String
  tags : Option (List String)
  labels : Option (List String)
  states : Option (List TaskState)
  exitStatus : Option String
  priority : Option String

structure TasksCancelByFilterResp where
  cancelledCount : Nat
  groupName : String
  deriving DecidableEq

structure TasksCancelByUuidsResp where
  cancelledCount : Nat
  failedUuids : List Uuid
  deriving DecidableEq

structure TasksQueryReq where
  creatorUsernames : Option (List String)
  groupName : Option String
  tags : Option (List String)
  labels : Option (List String)
  states : Option (List TaskState)
  exitStatus : Option String
  priority : Option String
  reporterUuid : Option Uuid
  limit : Option Nat
  offset : Option Nat
  count : Bool

inductive WorkerShutdownOp where
  | graceful | force
  deriving DecidableEq

structure WorkersShutdownByFilterReq where
  groupName : Option String
  role : Option (List GroupWorkerRole)
  tags : Option (List String)
  labels : Option (List String)
  creatorUsername : Option String
  op : WorkerShutdownOp

structure WorkersShutdownByFilterResp where
  shutdownCount : Nat
  groupName : String
  deriving DecidableEq

structure WorkersShutdownByUuidsResp where
  shutdownCount : Nat
  failedUuids : List Uuid
  deriving DecidableEq

/-- What a finished request hands to its caller. -/
inductive Reply where
  | unit
  | uuid (u : Uuid)
  | task (t : Option WorkerTaskResp)
  | url (u : Option PresignedUrl)
  | upload (exist : Bool) (u : PresignedUrl)
  | submit (r : SubmitTaskResp)
  | submits (rs : List (Except ApiError SubmitTaskResp))
  | cancelByFilter (r : TasksCancelByFilterResp)
  | cancelByUuids (r : TasksCancelByUuidsResp)
  | shutdownByFilter (r : WorkersShutdownByFilterResp)
  | shutdownByUuids (r : WorkersShutdownByUuidsResp)

end Mitosis
