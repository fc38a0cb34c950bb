import Mitosis.Proof.Checked

namespace Mitosis
set_option autoImplicit true

namespace Service

section
variable {K : History}

/-- A command whose need is met, and what follows it with its response. -/
theorem knows_issue_bind {c : Cmd} {f : c.Ret → Service α} (h : c.checked K)
    (hf : ∀ a, Knows Cmd.checked (⟨c, .ok a⟩ :: K) (f a) fun _ _ => True) :
    Knows Cmd.checked K (issue c >>= f) fun _ _ => True := by
  apply (knows_bind _ _).2
  refine ⟨h, fun r => ?_⟩
  cases r with
  | error => trivial
  | ok a => exact hf a

theorem knows_okOr_bind {e : Error} {x : Option α} {f : α → Service β}
    (hf : ∀ a, Knows Cmd.checked K (f a) fun _ _ => True) :
    Knows Cmd.checked K (okOr e x >>= f) fun _ _ => True := by
  cases x with
  | none => trivial
  | some a => exact hf a

theorem sendHeartbeat_checked (hw : K.known w) :
    Knows Cmd.checked K (sendHeartbeat (.heartbeat w) msg) fun _ _ => True := by
  refine ⟨hw, fun r => ?_⟩
  cases r <;> trivial

theorem knows_bind_checked {p : Service α} {f : α → Service β}
    (h : Knows Cmd.checked K p fun _ _ => True) (hf : ∀ a, Checked (f a)) :
    Knows Cmd.checked K (p >>= f) fun _ _ => True := by
  apply (knows_bind _ _).2
  apply h.mono
  intro K' r _
  cases r with
  | error => trivial
  | ok a => exact hf a K'

theorem setupWorkerQueues_checked (hw : K.known w) :
    Knows Cmd.checked K (setupWorkerQueues w tags) fun _ _ => True := by
  apply knows_bind_checked (sendHeartbeat_checked hw)
  intro _
  exact (Checked.sendTask _ _).bind fun _ => (Checked.select _).bind fun _ => .sendTask _ _

theorem registerWorker_checked : Checked (registerWorker creatorId tags labels groups) := by
  intro K
  refine knows_issue_bind trivial fun uuid => knows_issue_bind trivial fun now => ?_
  refine knows_issue_bind (.tail _ (.head _)) fun row => knows_issue_bind trivial fun user => ?_
  refine knows_okOr_bind fun user => knows_issue_bind trivial fun _ => ?_
  refine knows_bind_checked (setupWorkerQueues_checked (.inl ?_)) fun _ => .pure _
  exact ⟨_, _, _, _, _, _, .tail _ (.tail _ (.head _))⟩

theorem setupWorkers_checked (ws : List (WorkerId × List String))
    (hws : ∀ e ∈ ws, K.known e.1) : Knows Cmd.checked K (setupWorkers ws) fun _ _ => True := by
  induction ws generalizing K with
  | nil => trivial
  | cons e ws ih =>
    apply (knows_bind _ _).2
    apply Knows.mono (Prog.Knows.extends (setupWorkerQueues_checked (hws e (.head _))))
    rintro K' r ⟨hK, -⟩
    cases r with
    | error => trivial
    | ok => exact ih fun e he => (hws e (.tail _ he)).mono hK

theorem restoreWorkers_checked : Checked restoreWorkers := by
  intro K
  refine knows_issue_bind trivial fun ws => ?_
  apply setupWorkers_checked
  intro e he
  exact .inr (.inr ⟨ws, e.2, .head _, he⟩)

end

theorem pushBack_checked (id : Option TaskId) : Checked (pushBack w id) := by
  cases id with
  | none => exact .ok _
  | some id =>
    refine Checked.now.bind fun _ => (Checked.write (by exact fun _ => trivial)).bind fun _ =>
        (Checked.select _).bind fun _ => ?_
    exact .sendTask _ _

theorem removeWorker_checked : Checked (removeWorker w worker) := by
  refine (pushBack_checked _).bind fun _ => (Checked.write (by exact fun _ =>
      trivial)).bind fun _ => ?_
  exact (Checked.sendTask _ _).bind fun _ => .unregister _ _

theorem findWorker_checked : Checked (findWorker uuid) :=
  (Checked.select _).bind fun _ => .okOr _ _

theorem shutdownWorker_checked (op : WorkerShutdownOp) : Checked (shutdownWorker w worker op) := by
  cases op with
  | force => exact removeWorker_checked
  | graceful => exact .ite removeWorker_checked ((Checked.write (by exact fun _ =>
      trivial)).bind fun _ => .pure _)

theorem checkCommonGroup_checked : Checked (checkCommonGroup userId w workerRoles userRoles) :=
  (Checked.select _).bind fun _ => (Checked.okOr _ _).bind fun _ => .pure _

theorem taskExpired_checked : Checked (taskExpired worker) := by
  unfold taskExpired
  cases worker.assignedTaskId with
  | none => exact .pure _
  | some id =>
    refine (Checked.select _).bind fun task => ?_
    cases task with
    | none => exact .pure _
    | some task => exact .ite (Checked.now.bind fun _ => .pure _) (.pure _)

theorem updateWorker_known (n : Nat) {K : History} :
    Knows Cmd.checked K (updateWorker w time n) fun K' r => r.isOk = true → K'.known w := by
  induction n generalizing K with
  | zero =>
    intro h
    cases h
  | succ n ih =>
    apply (knows_recover _ _).2
    refine ⟨trivial, fun r => ?_⟩
    cases r with
    | ok row =>
      intro _
      exact .inr (.inl ⟨time, row, .head _⟩)
    | error e =>
      change Knows _ _ (if _ then _ else _) _
      split
      next =>
        intro h
        cases h
      next => exact ih

theorem updateWorkerWithTransaction_known {K : History} :
    Knows Cmd.checked K (updateWorkerWithTransaction w) fun K' r => r.isOk = true → K'.known w := by
  refine ⟨trivial, fun r => ?_⟩
  cases r with
  | ok now => exact updateWorker_known 3
  | error =>
    intro h
    cases h

theorem heartbeat_checked : Checked (heartbeat w) := by
  intro K
  apply (knows_bind _ _).2
  apply updateWorkerWithTransaction_known.mono
  intro K' r hr
  cases r with
  | error => trivial
  | ok worker =>
    apply (knows_bind _ _).2
    apply Knows.mono (Prog.Knows.extends (taskExpired_checked K'))
    rintro K'' r ⟨hK, -⟩
    cases r with
    | error => trivial
    | ok expired =>
      change Knows _ _ (if _ then _ else _) _
      split
      next => exact removeWorker_checked K''
      next => exact sendHeartbeat_checked ((hr rfl).mono hK)

theorem runTimeout_checked : Checked (runTimeout w) := by
  refine Checked.recover ((Checked.select _).bind fun worker => ?_)
    fun _ => .issue (c := .cancelToken) fun _ => trivial
  cases worker with
  | none => exact .pure _
  | some worker => exact removeWorker_checked.ignore

theorem fetchTask_checked : Checked (fetchTask w) := by
  refine ((Checked.issue (c := .sendFetch w) fun _ => trivial).recover fun _ =>
      .fail _).bind fun rx => ?_
  refine ((Checked.issue (c := .recvFetch rx) fun _ => trivial).recover fun _ =>
      .fail _).bind fun reply => ?_
  cases reply with
  | none => exact .pure _
  | some id =>
    refine Checked.now.bind fun _ => (Checked.write (by exact fun _ => trivial)).bind fun task => ?_
    cases task with
    | none => exact .pure _
    | some task => exact (Checked.write (by exact fun _ => trivial)).bind fun _ => .pure _

theorem reportSubmit_checked : Checked (reportSubmit w t task req time) := by
  refine .ite (.fail _) (((Checked.select _).recover fun _ => .fail _).bind fun _ => ?_)
  refine (Checked.okOr _ _).bind fun _ => .ite (.fail _) ((Checked.select _).bind fun _ => ?_)
  refine (Checked.okOr _ _).bind fun _ => .ite (.fail _) ((Checked.select _).bind fun _ => ?_)
  refine (Checked.okOr _ _).bind fun _ => ?_
  refine (workerSubmitPendingTask_checked.recover fun _ => .fail _).bind fun _ => ?_
  exact (Checked.write (by exact fun _ => trivial)).bind fun _ => .pure _

theorem reportCommit_checked : Checked (reportCommit w wu t task res time) := by
  refine .ite (.fail _) ((Checked.write (by exact fun _ => trivial)).bind fun state =>
      (Checked.sendTask _ _).ignore.bind fun _ => ?_)
  have htrigger : ∀ uuid, Checked (triggerDownstream uuid) := by
    intro uuid
    cases uuid with
    | none => exact .ok _
    | some uuid => exact workerTriggerPendingTask_checked
  refine (htrigger _).bind fun _ => ?_
  cases state with
  | normal => exact .ok _
  | gracefulShutdown => exact (Checked.sendTask _ _).bind fun _ => .unregister _ _

theorem reportTask_checked : Checked (reportTask w wu t op) := by
  refine Checked.now.bind fun _ => (Checked.select _).bind fun _ =>
      (Checked.okOr _ _).bind fun _ => ?_
  refine .ite (.fail _) ?_
  cases op with
  | finish => exact (Checked.write (by exact fun _ => trivial)).bind fun _ => .pure _
  | cancel => exact (Checked.write (by exact fun _ => trivial)).bind fun _ => .pure _
  | submit req => exact reportSubmit_checked.bind fun _ => .pure _
  | commit res => exact reportCommit_checked.bind fun _ => .pure _
  | upload => exact groupUploadArtifact_checked.bind fun _ => .pure _

theorem reassignTasks_checked (tasks : List (TaskId × ActiveTask)) :
    Checked (reassignTasks tasks) := by
  induction tasks with
  | nil => exact .ok _
  | cons e tasks ih =>
    exact (Checked.select _).bind fun _ => (Checked.sendTask _ _).ignore.bind fun _ => ih

theorem unregisterWorkers_checked (ids : List WorkerId) : Checked (unregisterWorkers ids) := by
  induction ids with
  | nil => exact .ok _
  | cons id ids ih =>
    refine (Checked.sendTask _ _).ignore.bind fun _ => ?_
    exact (Checked.unregister _ _).ignore.bind fun _ => ih

theorem shutdownWorkersByFilter_checked : Checked (shutdownWorkersByFilter userId req) := by
  refine (Checked.select _).bind fun _ => (Checked.okOr _ _).bind fun _ => ?_
  refine .ite (.fail _) ((Checked.write (by exact fun _ => trivial)).bind fun _ =>
      (reassignTasks_checked _).bind fun _ => ?_)
  exact (unregisterWorkers_checked _).bind fun _ => .pure _

theorem shutdownChunks_checked (chunks : List (List Uuid)) :
    Checked (shutdownChunks userId op chunks) := by
  induction chunks with
  | nil => exact .ok _
  | cons chunk chunks ih =>
    refine (Checked.write (by exact fun _ => trivial)).bind fun _ => ?_
    exact ih.bind fun _ => .pure _

theorem shutdownWorkersByUuids_checked : Checked (shutdownWorkersByUuids userId uuids op) := by
  refine .ite (.fail _) ((shutdownChunks_checked _).bind fun _ => ?_)
  refine (reassignTasks_checked _).bind fun _ => ?_
  exact (unregisterWorkers_checked _).bind fun _ => .pure _

theorem userReplaceWorkerTags_checked : Checked (userReplaceWorkerTags userId uuid tags) := by
  refine .ite (.fail _) (findWorker_checked.bind fun _ => checkCommonGroup_checked.bind fun _ => ?_)
  exact Checked.now.bind fun _ => (Checked.write (by exact fun _ => trivial)).bind fun _ => .pure _

theorem userReplaceWorkerLabels_checked : Checked (userReplaceWorkerLabels userId uuid labels) := by
  refine .ite (.fail _) (findWorker_checked.bind fun _ => checkCommonGroup_checked.bind fun _ => ?_)
  exact Checked.now.bind fun _ => (Checked.write (by exact fun _ => trivial)).bind fun _ => .pure _

theorem userUpdateWorkerGroups_checked :
    Checked (userUpdateWorkerGroups userId uuid relations) := by
  refine .ite (.fail _) (findWorker_checked.bind fun _ => checkCommonGroup_checked.bind fun _ => ?_)
  exact (Checked.select _).bind fun _ => .ite (.fail _) (.write (by exact fun _ => trivial))

theorem userRemoveWorkerGroups_checked : Checked (userRemoveWorkerGroups userId uuid groups) := by
  refine .ite (.fail _) (findWorker_checked.bind fun _ => checkCommonGroup_checked.bind fun _ => ?_)
  exact (Checked.select _).bind fun _ => .ite (.fail _) (.write (by exact fun _ => trivial))

end Service

open Service in
theorem program_checked (c : Call) (K : History) :
    (program c).Knows Cmd.checked (fun _ _ => True) K := by
  have honce : ∀ {α : Type} {f : α → Reply} {p : Service α}, Checked p →
      (once f p).Knows Cmd.checked (fun _ _ => True) K :=
    fun h => (knows_once _ _).2 (h K)
  cases c with
  | registerWorker => exact honce registerWorker_checked
  | unregisterWorker =>
    exact honce ((Checked.select _).bind fun _ => (Checked.okOr _ _).bind fun _ =>
        removeWorker_checked)
  | heartbeat => exact honce heartbeat_checked
  | fetchTask w =>
    apply (Prog.knows_bind _ _).2
    apply (fetchTask_checked K).mono
    intro K' r _
    rcases r with e | x
    · trivial
    · cases x <;> trivial
  | reportTask => exact honce reportTask_checked
  | removeWorkerByUuid =>
    exact honce (findWorker_checked.bind fun _ => shutdownWorker_checked _)
  | userRemoveWorkerByUuid =>
    exact honce (findWorker_checked.bind fun _ => checkCommonGroup_checked.bind fun _ =>
      shutdownWorker_checked _)
  | shutdownWorkersByFilter => exact honce shutdownWorkersByFilter_checked
  | shutdownWorkersByUuids => exact honce shutdownWorkersByUuids_checked
  | replaceWorkerTags => exact honce userReplaceWorkerTags_checked
  | replaceWorkerLabels => exact honce userReplaceWorkerLabels_checked
  | updateWorkerGroups => exact honce userUpdateWorkerGroups_checked
  | removeWorkerGroups => exact honce userRemoveWorkerGroups_checked
  | submitTask => exact honce userSubmitTask_checked
  | batchSubmitTasks => exact honce userBatchSubmitTasks_checked
  | changeTask => exact honce userChangeTask_checked
  | changeTaskLabels => exact honce (.write (by exact fun _ => trivial))
  | cancelTask => exact honce userCancelTask_checked
  | cancelTasksByFilter => exact honce cancelTasksByFilter_checked
  | cancelTasksByUuids => exact honce cancelTasksByUuids_checked
  | uploadArtifact => exact honce userUploadArtifact_checked
  | restoreWorkers => exact honce restoreWorkers_checked
  | timeout => exact honce runTimeout_checked
  | triggerPendingTask => exact honce workerTriggerPendingTask_checked

theorem checked_of_path {s : State}
    (hp : Path State.step ok (State.initial accounts timeout clock) as s) :
    Informed (fun _ => Cmd.checked) (fun _ _ _ => True)
      ((State.initial accounts timeout clock).log as) s := by
  induction hp with
  | nil => exact .initial
  | snoc hp _ hs ih =>
    rw [State.log_snoc hp hs]
    exact ih.step (fun c => program_checked c []) (fun c K _ => program_checked c K)
      (fun hd K => ⟨trivial, fun _ => trivial⟩) hs

end Mitosis
