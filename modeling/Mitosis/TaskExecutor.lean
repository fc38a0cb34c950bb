import Mitosis.Filter
import Mitosis.Lib.Hoare

namespace Mitosis
set_option autoImplicit true

namespace Executor

/-- The files below a directory, each with the number of the task that it comes from. -/
abbrev Files := Table (List String) Nat

/-- The directories that a task finds in its environment. -/
inductive Dir where
  | result | exec | resource
  deriving DecidableEq

/-- The cache directory of a worker, with the directories that exist in it. -/
structure Cache where
  result : Option Files
  exec : Option Files
  resource : Option Files
  newTask : Option Nat

namespace Cache

def dir (c : Cache) : Dir → Option Files
  | .result => c.result
  | .exec => c.exec
  | .resource => c.resource

/-- `create_dir_all`, which leaves a directory that exists as it is. -/
def createDir (d : Option Files) : Option Files := some (d.getD .empty)

def createResult (c : Cache) : Cache := { c with result := createDir c.result }

def createExec (c : Cache) : Cache := { c with exec := createDir c.exec }

def createResource (c : Cache) : Cache := { c with resource := createDir c.resource }

/-- `remove_dir_all`. -/
def removed : Cache := ⟨none, none, none, none⟩

def origins (c : Cache) : List Nat :=
  ([c.result, c.exec, c.resource].flatMap fun d => (d.getD .empty).rows.map Prod.snd) ++
    c.newTask.toList

/-- What the task `n` may have made of the files `old`: files of its own, and copies. -/
def within (c old : Cache) (n : Nat) : Bool := c.origins.all fun m => m = n || m ∈ old.origins

end Cache

/-- The components of a path below the resource directory. The coordinator admits only relative
paths without `..`. -/
def components (path : String) : List String :=
  (splitChar '/' path).filter fun c => c ≠ "" && c ≠ "."

inductive FetchReply where
  | task (task : WorkerTaskResp)
  | noTask
  | unreachable
  | refused

inductive ResourceReply where
  | found | notFound | forbidden | cancelled | timeout
  deriving DecidableEq

/-- How far a download has come: up to the directory of its file, or to the file. -/
inductive Progress where
  | nothing | directory | file
  deriving DecidableEq

inductive DownloadReply where
  | done
  | failed (progress : Progress)
  | cancelled (progress : Progress)
  | timeout (progress : Progress)
  deriving DecidableEq

def DownloadReply.progress : DownloadReply → Progress
  | done => .file
  | failed p => p
  | cancelled p => p
  | timeout p => p

inductive WatchReply where
  | reached | cancelled | timeout
  deriving DecidableEq

inductive RunReply where
  | finish (exitStatus : Int)
  | timeout (exitStatus : Int)
  | cancelled
  deriving DecidableEq

inductive ReportReply where
  | accepted | notFound | unauthorized | interrupted
  deriving DecidableEq

inductive UploadReply where
  | skipped
  | sent (files : Files)
  | refused
  | unauthorized
  | cancelled
  | timeout

inductive NewTaskReply where
  | absent | empty | unreadable | invalid
  | submit (req : SubmitTaskReq)

inductive EnvValue where
  | text (s : String)
  | dir (d : Dir)
  | newTask
  | uuid (u : Uuid)
  deriving DecidableEq

/-- The command of a task. A later variable replaces an earlier one of its name. -/
structure Command where
  args : List String
  envs : List (String × EnvValue)
  piped : Bool

def Command.env (c : Command) (name : String) : Option EnvValue := c.envs.reverse.lookup name

inductive Cmd where
  | isCancelled
  | cancel
  | poll
  | fetchTask
  | resourceInfo (task : Uuid) (file : RemoteResource)
  | download (localPath : String)
  | report (id : TaskId) (op : ReportTaskOp)
  | watch (uuid : Uuid) (state : TaskExecState)
  | removeNewTask
  | spawn (command : Command)
  | run
  | upload (id : TaskId) (contentType : ArtifactContentType)
  | joinArchive
  | readNewTask
  | removeCache
  | createCache
  | createResult
  | createExec

namespace Cmd

abbrev Ret : Cmd → Type
  | isCancelled => Bool
  | poll => Bool
  | fetchTask => FetchReply
  | resourceInfo _ _ => ResourceReply
  | download _ => DownloadReply
  | report _ _ => ReportReply
  | watch _ _ => WatchReply
  | run => RunReply
  | upload _ _ => UploadReply
  | readNewTask => NewTaskReply
  | _ => Unit

abbrev Resp (c : Cmd) : Type := Except Error c.Ret

end Cmd

/-- The cache, whether the cancel token is cancelled, and how many tasks have been fetched. -/
structure World where
  cache : Cache
  cancelled : Bool
  current : Nat

/-- What a step meets: whether the token is cancelled before it, what is answered, and, where the
command of a task runs, what this leaves in the cache. -/
structure Chance where
  cancelled : Bool
  reply : (c : Cmd) → c.Resp
  after : Cache

namespace World

def save (s : World) (localPath : String) : Progress → World
  | .nothing => s
  | .directory => { s with cache := s.cache.createResource }
  | .file =>
    let files := (s.cache.resource.getD .empty).set (components localPath) s.current
    { s with cache := { s.cache with resource := some files } }

def output (s : World) : ArtifactContentType → Files
  | .result => s.cache.result.getD .empty
  | .execLog => s.cache.exec.getD .empty
  | .stdLog => (Table.empty.set ["stdout.log"] s.current).set ["stderr.log"] s.current

/-- An answer that only a cancelled token gives. -/
def interrupted (s : World) (r : α) : Option (α × World) := if s.cancelled then some (r, s) else none

def done (chance : Chance) (s : World) : (c : Cmd) → Option (c.Resp × World)
  | .isCancelled => some (.ok s.cancelled, s)
  | .cancel => some (.ok (), { s with cancelled := true })
  | .poll => some (.ok s.cancelled, s)
  | .fetchTask =>
    match chance.reply .fetchTask with
    | .ok (.task task) => some (.ok (.task task), { s with current := s.current + 1 })
    | r => some (r, s)
  | .resourceInfo task file =>
    match chance.reply (.resourceInfo task file) with
    | .ok .cancelled => s.interrupted (.ok .cancelled)
    | r => some (r, s)
  | .download localPath =>
    match chance.reply (.download localPath) with
    | .error _ => none
    | .ok (.cancelled p) => (s.save localPath p).interrupted (.ok (.cancelled p))
    | .ok r => some (.ok r, s.save localPath r.progress)
  | .report id op =>
    match chance.reply (.report id op) with
    | .ok .unauthorized => some (.ok .unauthorized, { s with cancelled := true })
    | .ok .interrupted => s.interrupted (.ok .interrupted)
    | r => some (r, s)
  | .watch uuid state =>
    match chance.reply (.watch uuid state) with
    | .ok .cancelled => s.interrupted (.ok .cancelled)
    | r => some (r, s)
  | .removeNewTask =>
    match chance.reply .removeNewTask with
    | .ok _ => some (.ok (), { s with cache := { s.cache with newTask := none } })
    | .error e => some (.error e, s)
  | .spawn command => some (chance.reply (.spawn command), s)
  | .run =>
    if chance.after.within s.cache s.current then
      match chance.reply .run with
      | .ok .cancelled => { s with cache := chance.after }.interrupted (.ok .cancelled)
      | r => some (r, { s with cache := chance.after })
    else none
  | .upload id contentType =>
    if (s.output contentType).rows.isEmpty then some (.ok .skipped, s)
    else match chance.reply (.upload id contentType) with
      | .ok .skipped => none
      | .ok (.sent _) => some (.ok (.sent (s.output contentType)), s)
      | .ok .cancelled => s.interrupted (.ok .cancelled)
      | .ok .unauthorized => some (.ok .unauthorized, { s with cancelled := true })
      | r => some (r, s)
  | .joinArchive => some (chance.reply .joinArchive, s)
  | .readNewTask =>
    match s.cache.newTask, chance.reply .readNewTask with
    | none, _ => some (.ok .absent, s)
    | some _, .ok .absent => none
    | some _, r => some (r, s)
  | .removeCache =>
    match chance.reply .removeCache with
    | .ok _ => some (.ok (), { s with cache := .removed })
    | .error e => some (.error e, s)
  | .createCache => some (chance.reply .createCache, s)
  | .createResult =>
    match chance.reply .createResult with
    | .ok _ => some (.ok (), { s with cache := s.cache.createResult })
    | .error e => some (.error e, s)
  | .createExec =>
    match chance.reply .createExec with
    | .ok _ => some (.ok (), { s with cache := s.cache.createExec })
    | .error e => some (.error e, s)

end World

def Cmd.exec (chance : Chance) (s : World) (c : Cmd) : Option (c.Resp × World) :=
  { s with cancelled := s.cancelled || chance.cancelled }.done chance c

abbrev Service (α : Type) : Type := Fallible Cmd Cmd.Ret Error α

namespace Service
open Fallible (attempt fail)

abbrev issue (c : Cmd) : Service c.Ret := Fallible.issue c

def reportTask (id : TaskId) (op : ReportTaskOp) : Service Unit := do
  let _ ← issue (.report id op)
  return ()

/-- Commit the task as cancelled before its command has been spawned. -/
def giveUp (task : WorkerTaskResp) (msg : TaskResultMessage) : Service Bool := do
  reportTask task.id .cancel
  reportTask task.id (.commit ⟨0, some msg⟩)
  return false

/-- An iteration of the loop over the resources. It tells whether `execute_task` goes on. -/
def fetchResource (task : WorkerTaskResp) (resource : RemoteResourceDownload) : Service Bool := do
  match ← issue (.resourceInfo task.uuid resource.remoteFile) with
  | .cancelled => return false
  | .timeout => giveUp task .fetchResourceTimeout
  | .notFound => giveUp task .resourceNotFound
  | .forbidden => giveUp task .resourceForbidden
  | .found =>
    match ← issue (.download resource.localPath) with
    | .done => return true
    | .failed _ => giveUp task .resourceForbidden
    | .cancelled _ => return false
    | .timeout _ => giveUp task .fetchResourceTimeout

def fetchResources (task : WorkerTaskResp) : List RemoteResourceDownload → Service Bool
  | [] => return true
  | resource :: resources => do
    if ← fetchResource task resource then fetchResources task resources else return false

def watchTask (redis : Bool) (task : WorkerTaskResp) : Service Bool :=
  match redis, task.spec.watch with
  | true, some (uuid, state) => do
    match ← issue (.watch uuid state) with
    | .reached => return true
    | .cancelled => return false
    | .timeout => giveUp task .watchTimeout
  | _, _ => return true

def command (task : WorkerTaskResp) : Command where
  args := task.spec.args
  envs := task.spec.envs.map (fun e => (e.1, .text e.2)) ++
    [("MITO_RESULT_DIR", .dir .result), ("MITO_EXEC_DIR", .dir .exec),
      ("MITO_RESOURCE_DIR", .dir .resource), ("MITO_TASK_UUID", .uuid task.uuid),
      ("MITO_NEW_TASK", .newTask)] ++
    (task.upstreamTaskUuid.map fun uuid => ("MITO_UPSTREAM_TASK_UUID", .uuid uuid)).toList
  piped := task.spec.terminalOutput

inductive UploadEnd where
  | finished | timeout
  deriving DecidableEq

/-- The artifacts are archived and uploaded one after the other, until one is refused. -/
def uploadArtifacts (id : TaskId) : List ArtifactContentType → Service UploadEnd
  | [] => return .finished
  | contentType :: contentTypes => do
    match ← issue (.upload id contentType) with
    | .skipped => uploadArtifacts id contentTypes
    | .sent _ => uploadArtifacts id contentTypes
    | .refused => return .finished
    | .unauthorized => return .finished
    | .cancelled => return .finished
    | .timeout => return .timeout

def submitNewTaskIfPresent (id : TaskId) : Service Bool := do
  match ← issue .readNewTask with
  | .absent => return true
  | .empty =>
    let _ ← attempt (issue .removeNewTask)
    return true
  | .unreadable =>
    let _ ← attempt (issue .removeNewTask)
    return false
  | .invalid =>
    let _ ← attempt (issue .removeNewTask)
    return false
  | .submit req =>
    match ← attempt (reportTask id (.submit req)) with
    | .error _ => return false
    | .ok _ =>
      let _ ← attempt (issue .removeNewTask)
      return true

/-- The clean-up at the end of `process_task_result`. -/
def cleanDirectory : Service Unit := do
  issue .removeCache
  issue .createCache
  issue .createResult
  issue .createExec

def processTaskResult (task : WorkerTaskResp) (isFinished : Bool) (exitStatus : Int) :
    Service Unit := do
  reportTask task.id (if isFinished then .finish else .cancel)
  let contentTypes := if task.spec.terminalOutput then [.result, .execLog, .stdLog]
    else [.result, .execLog]
  match ← uploadArtifacts task.id contentTypes with
  | .timeout =>
    reportTask task.id (.commit ⟨exitStatus, some .uploadResultTimeout⟩)
    issue .joinArchive
    cleanDirectory
  | .finished =>
    issue .joinArchive
    if ← issue .isCancelled then return ()
    else
      let newTaskSucceed ← submitNewTaskIfPresent task.id
      let msg := if isFinished then
          if newTaskSucceed then none else some .submitNewTaskFailed
        else some .execTimeout
      reportTask task.id (.commit ⟨exitStatus, msg⟩)
      cleanDirectory

/-- The part of `execute_task` from the creation of the command on. -/
def runTask (task : WorkerTaskResp) : Service Unit := do
  let _ ← attempt (issue .removeNewTask)
  issue (.spawn (command task))
  match ← issue .run with
  | .cancelled => return ()
  | .finish exitStatus => processTaskResult task true exitStatus
  | .timeout exitStatus => processTaskResult task false exitStatus

def executeTask (redis : Bool) (task : WorkerTaskResp) : Service Unit := do
  if ← fetchResources task task.spec.resources then
    if ← watchTask redis task then runTask task else return ()
  else return ()

/-- An iteration of the loop of `run` over the tasks. -/
def iteration (redis : Bool) : Service (Flow Unit) := do
  if ← issue .isCancelled then return .done ()
  else
    match ← issue .fetchTask with
    | .task task =>
      match ← attempt (executeTask redis task) with
      | .ok _ => return .again
      | .error _ =>
        issue .cancel
        return .again
    | .noTask => if ← issue .poll then return .done () else return .again
    | .unreachable => if ← issue .poll then return .done () else return .again
    | .refused =>
      issue .cancel
      return .done ()

end Service

def program (redis : Bool) : Prog Cmd Cmd.Resp (Flow (Except Error Unit)) :=
  Prog.bind (β := Flow (Except Error Unit)) (Service.iteration redis) fun
    | .error e => .ret (.done (.error e))
    | .ok .again => .ret .again
    | .ok (.done _) => .ret (.done (.ok ()))

abbrev Worker := Solo World Cmd Cmd.Resp (Except Error Unit)

def step (redis : Bool) : Worker → Chance → Option Worker := Solo.step (program redis) Cmd.exec

/-- `MitoWorker::setup`, which makes the directories below a new one. -/
def setup (redis : Bool) : Worker :=
  ⟨⟨Cache.removed.createResult.createExec.createResource, false, 0⟩, program redis, []⟩

end Executor
end Mitosis
