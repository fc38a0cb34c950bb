import Mitosis.Schema

namespace Mitosis
set_option autoImplicit true

namespace TaskExecState

/-- The number by which a stage is stored and published. -/
def code : TaskExecState → Int
  | workerExited => -1
  | fetchResource => 1
  | fetchResourceFinished => 2
  | fetchResourceError => 3
  | fetchResourceTimeout => 4
  | fetchResourceNotFound => 5
  | fetchResourceForbidden => 6
  | watch => 7
  | watchFinished => 8
  | watchTimeout => 9
  | execPending => 10
  | execSpawned => 11
  | execFinished => 12
  | execTimeout => 13
  | uploadResult => 14
  | uploadFinishedResult => 15
  | uploadCancelledResult => 16
  | uploadResultFinished => 17
  | uploadResultTimeout => 18
  | taskCommitted => 19
  | unknown => -99

def ofCode (v : Int) : TaskExecState :=
  if v = -1 then workerExited
  else if v = 1 then fetchResource
  else if v = 2 then fetchResourceFinished
  else if v = 3 then fetchResourceError
  else if v = 4 then fetchResourceTimeout
  else if v = 5 then fetchResourceNotFound
  else if v = 6 then fetchResourceForbidden
  else if v = 7 then watch
  else if v = 8 then watchFinished
  else if v = 9 then watchTimeout
  else if v = 10 then execPending
  else if v = 11 then execSpawned
  else if v = 12 then execFinished
  else if v = 13 then execTimeout
  else if v = 14 then uploadResult
  else if v = 15 then uploadFinishedResult
  else if v = 16 then uploadCancelledResult
  else if v = 17 then uploadResultFinished
  else if v = 18 then uploadResultTimeout
  else if v = 19 then taskCommitted
  else unknown

@[simp] theorem ofCode_code (s : TaskExecState) : ofCode s.code = s := by
  cases s <;> rfl

def stages : List TaskExecState :=
  [workerExited, fetchResource, fetchResourceFinished, fetchResourceError, fetchResourceTimeout,
    fetchResourceNotFound, fetchResourceForbidden, watch, watchFinished, watchTimeout, execPending,
    execSpawned, execFinished, execTimeout, uploadResult, uploadFinishedResult,
    uploadCancelledResult, uploadResultFinished, uploadResultTimeout, taskCommitted, unknown]

theorem mem_stages (s : TaskExecState) : s ∈ stages := by
  cases s <;> decide

/-- The matrix of `TaskExecState::is_reach`, by its rows: a watcher of `target` goes on when it
sees `self`. -/
def isReach (self target : TaskExecState) : Bool :=
  match target with
  | workerExited => false
  | fetchResource => self ∉ [workerExited, unknown]
  | fetchResourceFinished => self ∈ [fetchResourceFinished, watch, watchFinished, watchTimeout,
      execPending, execSpawned, execFinished, execTimeout, uploadResult, uploadFinishedResult,
      uploadCancelledResult, uploadResultFinished, uploadResultTimeout, taskCommitted]
  | fetchResourceError => self = fetchResourceError
  | fetchResourceTimeout => self = fetchResourceTimeout
  | fetchResourceNotFound => self = fetchResourceNotFound
  | fetchResourceForbidden => self = fetchResourceForbidden
  | watch => self ∈ [watch, watchFinished, watchTimeout, execPending, execSpawned, execFinished,
      execTimeout, uploadResult, uploadFinishedResult, uploadCancelledResult,
      uploadResultFinished, uploadResultTimeout, taskCommitted]
  | watchFinished => self ∈ [watchFinished, execPending, execSpawned, execFinished, execTimeout,
      uploadResult, uploadFinishedResult, uploadCancelledResult, uploadResultFinished,
      uploadResultTimeout, taskCommitted]
  | watchTimeout => self = watchTimeout
  | execPending => self ∈ [execPending, execSpawned, execFinished, execTimeout, uploadResult,
      uploadFinishedResult, uploadCancelledResult, uploadResultFinished, uploadResultTimeout,
      taskCommitted]
  | execSpawned => self ∈ [execSpawned, execFinished, execTimeout, uploadResult,
      uploadFinishedResult, uploadCancelledResult, uploadResultFinished, uploadResultTimeout,
      taskCommitted]
  | execFinished => self ∈ [execFinished, uploadFinishedResult]
  | execTimeout => self ∈ [execTimeout, uploadCancelledResult]
  | uploadResult => self ∈ [uploadResult, uploadFinishedResult, uploadCancelledResult,
      uploadResultFinished, uploadResultTimeout, taskCommitted]
  | uploadFinishedResult => self = uploadFinishedResult
  | uploadCancelledResult => self = uploadCancelledResult
  | uploadResultFinished => self = uploadResultFinished
  | uploadResultTimeout => self = uploadResultTimeout
  | taskCommitted => self = taskCommitted
  | unknown => false

end TaskExecState

/-- `TaskState::is_reach`, by the state and the result that the coordinator gives. -/
def TaskState.isReach (self : TaskState) (target : TaskExecState)
    (result : Option TaskResultSpec) : Bool :=
  match self with
  | .pending | .ready | .unknown => false
  | .running => target = .fetchResource
  | .finished => match target with
    | .fetchResource | .fetchResourceFinished | .watch | .watchFinished | .execPending
    | .execSpawned | .execFinished | .uploadResult | .uploadFinishedResult => true
    | .uploadResultFinished | .taskCommitted => result.isSome
    | _ => false
  | .cancelled => match result.bind TaskResultSpec.msg with
    | none => false
    | some msg => match target with
      | .fetchResource | .fetchResourceFinished | .watch | .watchFinished | .execPending
      | .execSpawned | .execFinished => msg = .submitNewTaskFailed
      | .fetchResourceTimeout => msg = .fetchResourceTimeout
      | .fetchResourceNotFound => msg = .resourceNotFound
      | .fetchResourceForbidden => msg = .resourceForbidden
      | .watchTimeout => msg = .watchTimeout
      | .execTimeout => msg = .execTimeout
      | .uploadResult | .uploadResultFinished => msg ≠ .userCancellation
      | .uploadCancelledResult => msg ∉ [.userCancellation, .submitNewTaskFailed]
      | .uploadResultTimeout => msg = .uploadResultTimeout
      | .taskCommitted => true
      | _ => false

end Mitosis
