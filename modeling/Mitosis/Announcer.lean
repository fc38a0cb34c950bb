import Mitosis.Database
import Mitosis.TaskExecutor
import Mitosis.TaskStages

namespace Mitosis
set_option autoImplicit true

namespace Announcer

/-- What an executor that waits meets: its token is cancelled, its deadline passes, or it gets
what it waits for. -/
inductive Awaited (α : Type) where
  | cancelled
  | timeout
  | ready (a : α)

/-- What the `select!` of `watch_task` takes: a message of a channel, if its payload is a number,
or the timer. -/
inductive Event where
  | message (channel : Uuid) (payload : Option Int)
  | closed
  | timer

inductive ChildReply where
  | cancelled
  | exited (status : Int)
  | timeout

/-- How the wait for a child goes that has been sent SIGTERM. -/
inductive DrainReply where
  | exited | cancelled | late

/-- The commands of the executor, those for its redis connections, which have the number `conn`,
and those for its child. The commands `watch` and `run` of the executor are not used. -/
inductive Cmd where
  | work (c : Executor.Cmd)
  | set (uuid : Uuid) (state : Int) (ex : Option Nat)
  | publish (uuid : Uuid) (state : Int)
  | subscribe (conn : Nat) (uuid : Uuid)
  | unsubscribe (conn : Nat) (uuid : Uuid)
  | event (conn : Nat)
  | get (uuid : Uuid)
  | queryTask (uuid : Uuid)
  | interrupted
  | waitChild
  | killChild
  | drainChild
  | waitOutput

namespace Cmd

abbrev Ret : Cmd → Type
  | work c => c.Ret
  | event _ => Awaited Event
  | get _ => Awaited (Option Int)
  | queryTask _ => Awaited (Option (TaskState × Option TaskResultSpec))
  | interrupted => Awaited Empty
  | waitChild => ChildReply
  | drainChild => DrainReply
  | waitOutput => Int
  | _ => Unit

abbrev Resp (c : Cmd) : Type := Except Error c.Ret

end Cmd

abbrev Service (α : Type) : Type := Fallible Cmd Cmd.Ret Error α

/-- The connections of an executor: its number, whether each of them has been made, and how often
the loop of `watch_task` turns before it is stopped. -/
structure Link where
  conn : Nat
  redis : Bool
  pubsub : Bool
  turns : Nat

namespace Service
open Fallible (attempt fail)

abbrev issue (c : Cmd) : Service c.Ret := Fallible.issue c

/-- A part of the executor that neither announces nor watches. -/
def lift : Executor.Service α → Service α
  | .ret r => .ret r
  | .call c k => .call (.work c) fun r => lift (k r)

/-- `announce_task_state`, or `announce_task_state_ex` with an expiry. -/
def announce (link : Link) (uuid : Uuid) (state : TaskExecState) (ex : Option Nat) :
    Service Unit :=
  if link.redis then do
    let _ ← attempt (issue (.set uuid state.code ex))
    let _ ← attempt (issue (.publish uuid state.code))
    return ()
  else return ()

def reportTask (id : TaskId) (op : ReportTaskOp) : Service Unit :=
  lift (Executor.Service.reportTask id op)

/-- Commit the task as cancelled before its command has been spawned, and announce why. -/
def giveUp (link : Link) (task : WorkerTaskResp) (msg : TaskResultMessage)
    (state : TaskExecState) (ex : Option Nat) : Service Bool := do
  reportTask task.id .cancel
  reportTask task.id (.commit ⟨0, some msg⟩)
  announce link task.uuid state ex
  announce link task.uuid .taskCommitted (some 60)
  return false

/-- An iteration of the loop over the resources. Of the errors of a request, `unparsed` tells
those of a response that came and could not be parsed. -/
def fetchResource (unparsed : Error → Bool) (link : Link) (task : WorkerTaskResp)
    (resource : RemoteResourceDownload) : Service Bool := do
  match ← attempt (issue (.work (.resourceInfo task.uuid resource.remoteFile))) with
  | .error e =>
    if unparsed e then fail e
    else
      announce link task.uuid .fetchResourceError (some 60)
      fail e
  | .ok .cancelled => return false
  | .ok .timeout => giveUp link task .fetchResourceTimeout .fetchResourceTimeout (some 60)
  | .ok .notFound => giveUp link task .resourceNotFound .fetchResourceNotFound (some 60)
  | .ok .forbidden => giveUp link task .resourceForbidden .fetchResourceForbidden (some 60)
  | .ok .found =>
    match ← issue (.work (.download resource.localPath)) with
    | .done => return true
    | .failed _ => giveUp link task .resourceForbidden .fetchResourceForbidden none
    | .cancelled _ => return false
    | .timeout _ => giveUp link task .fetchResourceTimeout .fetchResourceTimeout (some 60)

def fetchResources (unparsed : Error → Bool) (link : Link) (task : WorkerTaskResp) :
    List RemoteResourceDownload → Service Bool
  | [] => return true
  | resource :: resources => do
    if ← fetchResource unparsed link task resource then fetchResources unparsed link task resources
    else return false

/-- `cur_state.is_reach(&state)`, for a number that redis gave. -/
def reaches (state : TaskExecState) (payload : Option Int) : Bool :=
  payload.any fun v => (TaskExecState.ofCode v).isReach state

/-- The loop of `watch_task`, which the executor stops after the given number of turns. -/
def watchLoop (conn : Nat) (uuid : Uuid) (state : TaskExecState) :
    Nat → Service Executor.WatchReply
  | 0 => do
    match ← issue .interrupted with
    | .cancelled => return .cancelled
    | .timeout => return .timeout
  | n + 1 => do
    match ← issue (.event conn) with
    | .cancelled => return .cancelled
    | .timeout => return .timeout
    | .ready .closed => watchLoop conn uuid state n
    | .ready (.message channel payload) =>
      if channel = uuid ∧ reaches state payload then return .reached
      else watchLoop conn uuid state n
    | .ready .timer =>
      match ← issue (.get uuid) with
      | .cancelled => return .cancelled
      | .timeout => return .timeout
      | .ready payload =>
        if reaches state payload then return .reached
        else
          match ← issue (.queryTask uuid) with
          | .cancelled => return .cancelled
          | .timeout => return .timeout
          | .ready info =>
            if info.any fun i => i.1.isReach state i.2 then return .reached
            else watchLoop conn uuid state n

def watchTask (link : Link) (task : WorkerTaskResp) : Service Bool :=
  match link.redis && link.pubsub, task.spec.watch with
  | true, some (uuid, state) => do
    announce link task.uuid .watch none
    let _ ← attempt (issue (.subscribe link.conn uuid))
    match ← watchLoop link.conn uuid state link.turns with
    | .reached => return true
    | .cancelled =>
      let _ ← attempt (issue (.unsubscribe link.conn uuid))
      announce link task.uuid .workerExited (some 60)
      return false
    | .timeout =>
      let _ ← attempt (issue (.unsubscribe link.conn uuid))
      giveUp link task .watchTimeout .watchTimeout (some 60)
  | _, _ => return true

def processTaskResult (link : Link) (task : WorkerTaskResp) (isFinished : Bool)
    (exitStatus : Int) : Service Unit := do
  announce link task.uuid (if isFinished then .uploadFinishedResult else .uploadCancelledResult)
    (some 660)
  reportTask task.id (if isFinished then .finish else .cancel)
  let contentTypes := if task.spec.terminalOutput then [.result, .execLog, .stdLog]
    else [.result, .execLog]
  match ← lift (Executor.Service.uploadArtifacts task.id contentTypes) with
  | .timeout =>
    reportTask task.id (.commit ⟨exitStatus, some .uploadResultTimeout⟩)
    announce link task.uuid .uploadResultTimeout (some 60)
    announce link task.uuid .taskCommitted (some 60)
    issue (.work .joinArchive)
    lift Executor.Service.cleanDirectory
  | .finished =>
    issue (.work .joinArchive)
    if ← issue (.work .isCancelled) then announce link task.uuid .workerExited (some 60)
    else
      announce link task.uuid .uploadResultFinished (some 60)
      let newTaskSucceed ← lift (Executor.Service.submitNewTaskIfPresent task.id)
      let msg := if isFinished then
          if newTaskSucceed then none else some .submitNewTaskFailed
        else some .execTimeout
      reportTask task.id (.commit ⟨exitStatus, msg⟩)
      announce link task.uuid .taskCommitted (some 60)
      lift Executor.Service.cleanDirectory

/-- The end of `execute_task`, with the output of the command. -/
def finishTask (link : Link) (task : WorkerTaskResp) (isFinished : Bool) (exitStatus : Int) :
    Service Unit := do
  announce link task.uuid .uploadResult (some 660)
  processTaskResult link task isFinished exitStatus

/-- The wait for a command whose time is over. It ends with the exit status, unless the worker
stops. -/
def drain : Service (Option Int) := do
  match ← issue .drainChild with
  | .cancelled =>
    issue .killChild
    return none
  | .late =>
    issue .killChild
    let exitStatus ← issue .waitOutput
    return some exitStatus
  | .exited =>
    let exitStatus ← issue .waitOutput
    return some exitStatus

/-- The part of `execute_task` from the creation of the command on. -/
def runTask (link : Link) (task : WorkerTaskResp) : Service Unit := do
  announce link task.uuid .execPending (some (asU64 (task.timeout + 60)))
  let _ ← attempt (issue (.work .removeNewTask))
  issue (.work (.spawn (Executor.Service.command task)))
  announce link task.uuid .execSpawned none
  match ← attempt (issue .waitChild) with
  | .error e =>
    announce link task.uuid .execFinished (some 660)
    fail e
  | .ok .cancelled =>
    issue .killChild
    announce link task.uuid .workerExited (some 60)
  | .ok (.exited exitStatus) =>
    announce link task.uuid .execFinished (some 660)
    finishTask link task true exitStatus
  | .ok .timeout =>
    announce link task.uuid .execTimeout (some 60)
    match ← drain with
    | none => return ()
    | some exitStatus => finishTask link task false exitStatus

def executeTask (unparsed : Error → Bool) (link : Link) (task : WorkerTaskResp) :
    Service Unit := do
  announce link task.uuid .fetchResource (some 360)
  if ← fetchResources unparsed link task task.spec.resources then
    if ← watchTask link task then runTask link task else return ()
  else return ()

end Service

/-- The keys of the tasks with their numbers, and whether they expire; who has subscribed to which
channel; and the messages that the connections have not taken yet. -/
structure Redis where
  keys : Table Uuid (Int × Bool)
  subscribed : List (Nat × Uuid)
  inbox : List (Nat × Uuid × Int)

namespace Redis

def next (s : Redis) (conn : Nat) : Option (Nat × Uuid × Int) := s.inbox.find? fun m => m.1 = conn

def published (s : Redis) (uuid : Uuid) (state : Int) : Redis := { s with
  inbox := s.inbox ++ (s.subscribed.filter fun e => e.2 = uuid).map fun e => (e.1, uuid, state) }

end Redis

/-- One step. What the coordinator, the file system, the child and the clock answer is left to
chance; a command of redis may fail. -/
def Cmd.exec (chance : (c : Cmd) → c.Resp) (s : Redis) (c : Cmd) : Option (c.Resp × Redis) :=
  match c with
  | .set uuid state ex => match chance (.set uuid state ex) with
    | .error e => some (.error e, s)
    | .ok _ => some (.ok (), { s with keys := s.keys.set uuid (state, ex.isSome) })
  | .publish uuid state => match chance (.publish uuid state) with
    | .error e => some (.error e, s)
    | .ok _ => some (.ok (), s.published uuid state)
  | .subscribe conn uuid => match chance (.subscribe conn uuid) with
    | .error e => some (.error e, s)
    | .ok _ => some (.ok (), { s with subscribed := s.subscribed.insert (conn, uuid) })
  | .unsubscribe conn uuid => match chance (.unsubscribe conn uuid) with
    | .error e => some (.error e, s)
    | .ok _ => some (.ok (), { s with subscribed := s.subscribed.filter fun e => e ≠ (conn, uuid) })
  | .event conn => match chance (.event conn) with
    | .ok (.ready (.message _ _)) => (s.next conn).map fun m =>
      (.ok (.ready (.message m.2.1 (some m.2.2))), { s with inbox := s.inbox.erase m })
    | r => some (r, s)
  | .get uuid => match chance (.get uuid) with
    | .ok (.ready _) => some (.ok (.ready ((s.keys.find uuid).map Prod.fst)), s)
    | r => some (r, s)
  | c => some (chance c, s)

inductive Env where
  | expire (uuid : Uuid)
  | lose (conn : Nat)

def Env.run (s : Redis) : Env → Option Redis
  | .expire uuid => match s.keys.find uuid with
    | some (_, true) => some { s with keys := s.keys.erase uuid }
    | _ => none
  | .lose conn => some { s with inbox := s.inbox.filter fun m => m.1 ≠ conn }

structure Job where
  link : Link
  task : WorkerTaskResp

/-- Executors that announce and watch through one redis. -/
def system (unparsed : Error → Bool) :
    System Redis Cmd Cmd.Resp Job (Except Error Unit) ((c : Cmd) → c.Resp) Env where
  program job := Fallible.once id (Service.executeTask unparsed job.link job.task)
  exec _ := Cmd.exec
  env e s := e.run s

abbrev State := Sessions Redis Cmd Cmd.Resp Job (Except Error Unit)

def initial : State := ⟨⟨.empty, [], []⟩, [], []⟩

end Announcer
end Mitosis
