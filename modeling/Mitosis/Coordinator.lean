import Mitosis.Service.Worker

namespace Mitosis
set_option autoImplicit true

/-- The calls that the coordinator serves. The last four are its own: at its start, from
the queue of heartbeats, and by a commit. -/
inductive Call where
  | registerWorker (creatorId : UserId) (tags labels groups : List String)
  | unregisterWorker (id : WorkerId)
  | heartbeat (id : WorkerId)
  | fetchTask (id : WorkerId)
  | reportTask (id : WorkerId) (uuid : Uuid) (taskId : TaskId) (op : ReportTaskOp)
  | removeWorkerByUuid (uuid : Uuid) (op : WorkerShutdownOp)
  | userRemoveWorkerByUuid (userId : UserId) (uuid : Uuid) (op : WorkerShutdownOp)
  | shutdownWorkersByFilter (userId : UserId) (req : WorkersShutdownByFilterReq)
  | shutdownWorkersByUuids (userId : UserId) (uuids : List Uuid) (op : WorkerShutdownOp)
  | replaceWorkerTags (userId : UserId) (uuid : Uuid) (tags : List String)
  | replaceWorkerLabels (userId : UserId) (uuid : Uuid) (labels : List String)
  | updateWorkerGroups (userId : UserId) (uuid : Uuid) (relations : Table String GroupWorkerRole)
  | removeWorkerGroups (userId : UserId) (uuid : Uuid) (groups : List String)
  | submitTask (creatorId : UserId) (req : SubmitTaskReq)
  | batchSubmitTasks (creatorId : UserId) (reqs : List SubmitTaskReq)
  | changeTask (userId : UserId) (uuid : Uuid) (req : ChangeTaskReq)
  | changeTaskLabels (userId : UserId) (uuid : Uuid) (labels : List String)
  | cancelTask (userId : UserId) (uuid : Uuid)
  | cancelTasksByFilter (userId : UserId) (req : TasksCancelByFilterReq)
  | cancelTasksByUuids (userId : UserId) (uuids : List Uuid)
  | uploadArtifact (userId : UserId) (uuid : Uuid) (contentType : ArtifactContentType)
      (contentLength : Nat)
  | restoreWorkers
  | timeout (id : WorkerId)
  | triggerPendingTask (uuid : Uuid)

def Call.isRequest : Call → Bool
  | restoreWorkers | timeout _ | triggerPendingTask _ => false
  | _ => true

abbrev HandlerProg := Prog Cmd Cmd.Resp (Flow (Except Error Reply))

def Service.once (f : α → Reply) (p : Service α) : HandlerProg :=
  Prog.bind (β := Flow (Except Error Reply)) p fun r => .ret (.done (r.map f))

def Service.loop (f : α → Reply) (p : Service (Flow α)) : HandlerProg :=
  Prog.bind (β := Flow (Except Error Reply)) p fun
    | .ok .again => .ret .again
    | .ok (.done a) => .ret (.done (.ok (f a)))
    | .error e => .ret (.done (.error e))

open Service in
def program : Call → HandlerProg
  | .registerWorker creatorId tags labels groups =>
    once .uuid (registerWorker creatorId tags labels groups)
  | .unregisterWorker id => once (fun _ => .unit) (unregisterWorker id)
  | .heartbeat id => once (fun _ => .unit) (heartbeat id)
  | .fetchTask id => loop .task (fetchTask id)
  | .reportTask id uuid taskId op => once .url (reportTask id uuid taskId op)
  | .removeWorkerByUuid uuid op => once (fun _ => .unit) (removeWorkerByUuid uuid op)
  | .userRemoveWorkerByUuid userId uuid op =>
    once (fun _ => .unit) (userRemoveWorkerByUuid userId uuid op)
  | .shutdownWorkersByFilter userId req =>
    once .shutdownByFilter (shutdownWorkersByFilter userId req)
  | .shutdownWorkersByUuids userId uuids op =>
    once .shutdownByUuids (shutdownWorkersByUuids userId uuids op)
  | .replaceWorkerTags userId uuid tags =>
    once (fun _ => .unit) (userReplaceWorkerTags userId uuid tags)
  | .replaceWorkerLabels userId uuid labels =>
    once (fun _ => .unit) (userReplaceWorkerLabels userId uuid labels)
  | .updateWorkerGroups userId uuid relations =>
    once (fun _ => .unit) (userUpdateWorkerGroups userId uuid relations)
  | .removeWorkerGroups userId uuid groups =>
    once (fun _ => .unit) (userRemoveWorkerGroups userId uuid groups)
  | .submitTask creatorId req => once .submit (userSubmitTask creatorId req)
  | .batchSubmitTasks creatorId reqs => once .submits (userBatchSubmitTasks creatorId reqs)
  | .changeTask userId uuid req => once (fun _ => .unit) (userChangeTask userId uuid req)
  | .changeTaskLabels userId uuid labels =>
    once (fun _ => .unit) (userChangeTaskLabels userId uuid labels)
  | .cancelTask userId uuid => once (fun _ => .unit) (userCancelTask userId uuid)
  | .cancelTasksByFilter userId req => once .cancelByFilter (cancelTasksByFilter userId req)
  | .cancelTasksByUuids userId uuids => once .cancelByUuids (cancelTasksByUuids userId uuids)
  | .uploadArtifact userId uuid contentType contentLength =>
    once (fun r => .upload r.1 r.2) (userUploadArtifact userId uuid contentType contentLength)
  | .restoreWorkers => once (fun _ => .unit) restoreWorkers
  | .timeout id => once (fun _ => .unit) (runTimeout id)
  | .triggerPendingTask uuid => once (fun _ => .unit) (workerTriggerPendingTask uuid)

abbrev Handler := Thread Cmd Cmd.Resp Call (Except Error Reply)

/-- The coordinator with the handlers it has started. A handler that has returned stays with
its result. -/
structure State where
  infra : Infra
  pool : List Handler

/-- The tables that only the services for accounts, groups and files write. -/
structure Accounts where
  users : Table UserId User
  groups : Table GroupId Group
  userGroup : Table (UserId × GroupId) UserGroupRole
  artifacts : Table (Uuid × ArtifactContentType) Artifact

inductive Action where
  | call (c : Call)
  | step (i : Nat) (fault : Option DbErr)
  | dispatch (pick : Option TaskId)
  | recvHeartbeat
  | timeout (id : WorkerId)
  | abortTimeout (i : Nat)
  | accounts (a : Accounts)
  | tick
  | cancel
  | stopDispatcher
  | stopHeartbeatQueue

namespace Infra

/-- `TaskDispatcher::run` receives the oldest op. No caller has dropped its receiver. -/
def dispatch (s : Infra) (pick : Option TaskId) : Option Infra :=
  match s.taskChan with
  | [] => none
  | op :: ops =>
    if s.taskRx && !s.cancelled && s.dispatcher.admits op pick then
      let h := s.dispatcher.handleOp op pick true
      some { s with
        taskChan := ops
        dispatcher := h.dispatcher
        replies := h.reply.elim s.replies fun r => s.replies.set r.1 r.2 }
    else none

/-- `HeartbeatQueue::run` receives the oldest op. -/
def recvHeartbeat (s : Infra) : Option Infra :=
  match s.heartbeatChan with
  | [] => none
  | op :: ops =>
    if s.heartbeatRx && !s.cancelled then
      some { s with
        heartbeatChan := ops
        heartbeatQueue := s.heartbeatQueue.handleOp op s.clock }
    else none

/-- `handle_timeout` pops a worker whose time has passed. -/
def popExpired (s : Infra) (id : WorkerId) : Option Infra :=
  if s.heartbeatRx && !s.cancelled && s.heartbeatQueue.expires id s.clock then
    some { s with heartbeatQueue := s.heartbeatQueue.unregisterWorker id }
  else none

def setAccounts (s : Infra) (a : Accounts) : Infra :=
  { s with db := { s.db with
      users := a.users
      groups := a.groups
      userGroup := a.userGroup
      artifacts := a.artifacts } }

end Infra

/-- The thread is the unfinished `handle_timeout` of the queue of heartbeats. -/
def Handler.isTimeout (h : Handler) : Bool :=
  match h.call with
  | .timeout _ => h.result.isNone
  | _ => false

namespace State

/-- The handlers wait for nothing and have all returned. -/
def quiescent (s : State) : Bool := s.pool.all fun h => h.result.isSome

def step (s : State) : Action → Option State
  | .call c =>
    if c.isRequest then some { s with pool := s.pool ++ [.start program c] } else none
  | .step i fault => do
    let h ← s.pool[i]?
    let (h, infra) ← h.step program (Cmd.exec fault s.infra)
    return { infra, pool := s.pool.set i h }
  | .dispatch pick => (s.infra.dispatch pick).map fun infra => { s with infra }
  | .recvHeartbeat =>
    if s.pool.any Handler.isTimeout then none
    else s.infra.recvHeartbeat.map fun infra => { s with infra }
  | .timeout id =>
    if s.pool.any Handler.isTimeout then none
    else (s.infra.popExpired id).map fun infra =>
      { infra, pool := s.pool ++ [.start program (.timeout id)] }
  | .abortTimeout i => do
    -- the timeout on the database drops what is left of `handle_timeout`
    let h ← s.pool[i]?
    if h.isTimeout then
      return { s with pool := s.pool.set i ⟨h.call, .call .cancelToken fun _ =>
        .ret (.done (.ok .unit))⟩ }
    else none
  | .accounts a => some { s with infra := s.infra.setAccounts a }
  | .tick => some { s with infra := { s.infra with clock := s.infra.clock + 1 } }
  | .cancel => some { s with infra := { s.infra with cancelled := true } }
  | .stopDispatcher =>
    -- the ops still in the channel are dropped with their reply channels
    if s.infra.cancelled then
      some { s with infra := { s.infra with taskRx := false, taskChan := [] } }
    else none
  | .stopHeartbeatQueue =>
    if s.infra.cancelled then
      some { s with infra := { s.infra with heartbeatRx := false, heartbeatChan := [] } }
    else none

/-- The coordinator when it starts on a database without workers and tasks. -/
def initial (a : Accounts) (heartbeatTimeout : Nat) (clock : Instant) : State where
  infra := {
    db := {
      users := a.users
      groups := a.groups
      userGroup := a.userGroup
      workers := .empty
      groupWorker := .empty
      activeTasks := .empty
      archivedTasks := .empty
      artifacts := a.artifacts
      workerSeq := 1
      taskSeq := 1 }
    taskChan := []
    taskRx := true
    dispatcher := ⟨.empty⟩
    replies := .empty
    nextTicket := 0
    heartbeatChan := []
    heartbeatRx := true
    heartbeatQueue := ⟨.empty, heartbeatTimeout⟩
    nextUuid := 0
    cancelled := false
    clock }
  pool := []

end State
end Mitosis
