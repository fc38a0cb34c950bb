import Mitosis.Proof.Services

namespace Mitosis
set_option autoImplicit true

namespace History

/-- The handler read this row of an active task. -/
def sawTask (K : History) (t : TaskId) (task : ActiveTask) : Prop :=
  ⟨.select (.task t), .ok (some task)⟩ ∈ K

def sawWorker (K : History) (w : WorkerId) (worker : Worker) : Prop :=
  ⟨.select (.worker w), .ok (some worker)⟩ ∈ K ∨
  (∃ uuid, ⟨.select (.workerByUuid uuid), .ok (some (w, worker))⟩ ∈ K) ∨
  ∃ time, ⟨.write (.touchWorker w time), .ok worker⟩ ∈ K

theorem sawWorker.cons {K : History} (h : K.sawWorker w worker) (e : Entry Cmd Cmd.Resp) :
    History.sawWorker (e :: K) w worker := by
  rcases h with h | ⟨uuid, h⟩ | ⟨time, h⟩
  · exact .inl (List.mem_cons_of_mem _ h)
  · exact .inr (.inl ⟨uuid, List.mem_cons_of_mem _ h⟩)
  · exact .inr (.inr ⟨time, List.mem_cons_of_mem _ h⟩)

def deleted (K : History) (w : WorkerId) : Prop :=
  ⟨.write (.deleteWorker w), .ok ()⟩ ∈ K ∨
  (∃ t archived time, ⟨.write (.commitTask w t archived time), .ok .gracefulShutdown⟩ ∈ K) ∨
  (∃ g req res, ⟨.write (.shutdownWorkersByFilter g req), .ok res⟩ ∈ K ∧
    w ∈ res.removedWorkerIds) ∨
  ∃ u us op res, ⟨.write (.shutdownWorkersByUuids u us op), .ok res⟩ ∈ K ∧
    w ∈ res.1.removedWorkerIds

theorem deleted.mono {K K' : History} (h : K.deleted w) (hK : K ⊆ K') : K'.deleted w := by
  rcases h with h | ⟨t, a, n, h⟩ | ⟨g, req, res, h, hw⟩ | ⟨u, us, op, res, h, hw⟩
  · exact .inl (hK h)
  · exact .inr (.inl ⟨t, a, n, hK h⟩)
  · exact .inr (.inr (.inl ⟨g, req, res, hK h, hw⟩))
  · exact .inr (.inr (.inr ⟨u, us, op, res, hK h, hw⟩))

def inserted (K : History) (w : WorkerId) : Prop :=
  ∃ uuid creatorId tags labels time row,
    ⟨.write (.insertWorker uuid creatorId tags labels time), .ok (w, row)⟩ ∈ K

/-- The handler has not yet triggered a pending task. -/
def untriggered (K : History) : Prop :=
  ∀ t time r, (⟨.write (.triggerTask t time), r⟩ : Entry Cmd Cmd.Resp) ∉ K

/-- The handler committed the upstream of the pending task `uuid`. -/
def committedUpstream (K : History) (uuid : Uuid) : Prop :=
  ∃ w t archived time st, ⟨.write (.commitTask w t archived time), .ok st⟩ ∈ K ∧
    archived.downstreamTaskUuid = some uuid

end History

/-- Where the arguments of a handler's next command come from. -/
def Cmd.sourced (call : Call) (K : History) : Cmd → Prop
  | .write (.pushBackTask w t _) => ∃ worker, K.sawWorker w worker ∧
    worker.assignedTaskId = some t
  | .write (.assignTask w t _) => call = .fetchTask w ∧
    ∃ rx, ⟨.sendFetch w, .ok rx⟩ ∈ K ∧ ⟨.recvFetch rx, .ok (some t)⟩ ∈ K
  | .write (.linkWorker w t time) => call = .fetchTask w ∧
    (∃ rx, ⟨.sendFetch w, .ok rx⟩ ∈ K ∧ ⟨.recvFetch rx, .ok (some t)⟩ ∈ K) ∧
    ∃ task, ⟨.write (.assignTask w t time), .ok (some task)⟩ ∈ K
  | .write (.reportState w t st _) => ∃ uuid op task, call = .reportTask w uuid t op ∧
    (st = .finished ∨ st = .cancelled) ∧ K.sawTask t task ∧ task.assignedWorker = some w
  | .write (.setDownstream w t uuid _) => ∃ wu req task p row,
    call = .reportTask w wu t (.submit req) ∧ K.sawTask t task ∧ task.assignedWorker = some w ∧
    ⟨.write (.insertTask p), .ok row⟩ ∈ K ∧ row.2.uuid = uuid ∧
    p.upstreamTaskUuid = some task.uuid ∧ p.state = .pending
  | .write (.commitTask w t archived _) => ∃ wu res task time,
    call = .reportTask w wu t (.commit res) ∧ K.sawTask t task ∧
    task.assignedWorker = some w ∧ (task.state = .finished ∨ task.state = .cancelled) ∧
    archived = Service.committedTask task res wu time
  | .write (.insertTask task) => (∃ older, K = ⟨.newUuid, .ok task.uuid⟩ :: older) ∧
    task.assignedWorker = none ∧ task.downstreamTaskUuid = none ∧
    (task.state = .ready ∧ task.upstreamTaskUuid = none ∨ task.state = .pending ∧
      ∃ w wu t req upstream, call = .reportTask w wu t (.submit req) ∧ K.sawTask t upstream ∧
        task.upstreamTaskUuid = some upstream.uuid)
  | .write (.triggerTask id _) => ∃ uuid task,
    ⟨.select (.pendingTask uuid), .ok (some (id, task))⟩ ∈ K ∧
    (call = .triggerPendingTask uuid ∨ K.committedUpstream uuid) ∧ K.untriggered
  | .write (.cancelTasksByFilter filter) => ∃ states, filter.states = some states ∧
    states ⊆ [.ready, .pending]
  | .sendTask (.registerWorker w) => call = .restoreWorkers ∨ K.inserted w
  | .sendTask (.unregisterWorker w) => K.deleted w
  | .sendTask (.fetchTask _ _) => False
  | .sendFetch w => call = .fetchTask w
  | .recvFetch rx => ∃ w, call = .fetchTask w ∧ ⟨.sendFetch w, .ok rx⟩ ∈ K
  | _ => True

/-- Only `fetch_task` loops, and it has assigned the task that it returns. -/
def Reply.sourced (call : Call) (K : History) : Flow (Except Error Reply) → Prop
  | .again => ∃ w, call = .fetchTask w
  | .done (.ok (.task (some r))) => ∃ w time task, call = .fetchTask w ∧
    ⟨.write (.assignTask w r.id time), .ok (some task)⟩ ∈ K
  | _ => True

namespace Service
variable {call : Call} {K : History}

attribute [local simp] Cmd.sourced

/-- The program issues only commands whose arguments it obtained, whatever it returns. -/
abbrev Sourced (call : Call) (K : History) (p : Service α) : Prop :=
  Knows (Cmd.sourced call) K p fun _ _ => True

theorem userSubmitTask_sourced : Sourced call K (userSubmitTask creatorId req) := by
  cases h : checkTaskSpec req.taskSpec <;>
    simp only [userSubmitTask, countTask, h, newTask, knows_bind, knows_pure, knows_sendTask,
      Cmd.sourced, implies_true, and_self, knows_select, forall_except, knows_write, reduceCtorEq,
      and_false, exists_false, or_false, and_true, knows_ofExcept, knows_newUuid,
      knows_okOr, knows_now, List.cons.injEq, Sigma.mk.injEq, heq_eq_eq, true_and, exists_and_left,
      ↓existsAndEq]

theorem workerSubmitPendingTask_sourced (h : K.sawTask t task) :
    Knows (Cmd.sourced (.reportTask w wu t (.submit req'))) K
      (workerSubmitPendingTask creatorId task.uuid req) fun K' r =>
      K ⊆ K' ∧ ∀ resp, r = .ok resp → ∃ p row,
        ⟨.write (.insertTask p), .ok row⟩ ∈ K' ∧ row.2.uuid = resp.uuid ∧
        p.upstreamTaskUuid = some task.uuid ∧ p.state = .pending := by
  apply Knows.extends
  cases hs : checkTaskSpec req.taskSpec with
  | error e => simp only [workerSubmitPendingTask, countTask, hs, Prod.exists, knows_bind,
    knows_pure, Except.ok.injEq, forall_eq', reduceCtorEq, IsEmpty.forall_iff, implies_true,
    knows_write, Cmd.sourced, and_self, Call.reportTask.injEq, ReportTaskOp.submit.injEq,
    Option.some.injEq, exists_and_left, exists_and_right, ↓existsAndEq, and_true, true_and,
    false_or, List.mem_cons, Sigma.mk.injEq, Cmd.write.injEq, Write.insertTask.injEq, heq_eq_eq,
    forall_except, Prod.forall, Prod.mk.injEq, knows_ofExcept, knows_newUuid, knows_okOr,
    knows_now]
  | ok u =>
    simp only [workerSubmitPendingTask, countTask, hs, Prod.exists, knows_bind, knows_pure,
      Except.ok.injEq, forall_eq', reduceCtorEq, IsEmpty.forall_iff, implies_true, knows_write,
      Cmd.sourced, and_self, Call.reportTask.injEq, ReportTaskOp.submit.injEq, Option.some.injEq,
      exists_and_left, exists_and_right, ↓existsAndEq, and_true, true_and, false_or, List.mem_cons,
      Sigma.mk.injEq, Cmd.write.injEq, Write.insertTask.injEq, heq_eq_eq, forall_except,
      Prod.forall, Prod.mk.injEq, knows_ofExcept, knows_newUuid, List.cons.injEq, false_and,
      knows_okOr, knows_now]
    intro time found group row hg uuid
    constructor
    · exact ⟨rfl, rfl, rfl, task, List.mem_append_right [_, _, _] h, rfl⟩
    · intro id row
      exact ⟨_, id, row, .inl ⟨rfl, rfl, rfl⟩, rfl, rfl, rfl⟩

theorem groupUploadArtifact_sourced :
    Sourced call K (groupUploadArtifact task contentType contentLength) := by
  rw [groupUploadArtifact]
  simp only [ne_eq, ite_not, knows_bind, knows_okOr, implies_true, and_true, knows_select,
    Cmd.sourced, forall_except, true_and, knows_now]
  intros
  split <;> simp only [knows_write, Cmd.sourced, implies_true, and_self, knows_fail]

theorem fetchTask_sourced : Knows (Cmd.sourced (.fetchTask w)) K (fetchTask w) fun K r =>
    ∀ x, r = .ok (.done (some x)) →
      ∃ time task, ⟨.write (.assignTask w x.id time), .ok (some task)⟩ ∈ K := by
  simp only [fetchTask, knows_bind, reduceCtorEq, IsEmpty.forall_iff, implies_true, knows_recover,
    knows_fail, knows_issue, Cmd.sourced, Call.fetchTask.injEq, exists_eq_left', forall_except,
    and_true, List.mem_cons, Sigma.mk.injEq, heq_eq_eq, true_and, true_or]
  intro rx r
  cases r with
  | none => simp
  | some t =>
    simp only [knows_bind, reduceCtorEq, IsEmpty.forall_iff, implies_true, knows_write,
      Cmd.sourced, true_and, forall_except, and_true, knows_now, List.mem_cons, Sigma.mk.injEq,
      heq_eq_eq, false_and, Except.ok.injEq, false_or, Cmd.recvFetch.injEq, exists_eq_or_imp,
      true_or]
    intro time task
    cases task with
    | none => simp
    | some task =>
      simp only [knows_bind, knows_pure, Except.ok.injEq, Flow.done.injEq, Option.some.injEq,
        forall_eq', reduceCtorEq, IsEmpty.forall_iff, implies_true, knows_write, Cmd.sourced,
        List.mem_cons, Sigma.mk.injEq, false_and, heq_eq_eq, true_and, false_or,
        Cmd.recvFetch.injEq, and_true, exists_eq_or_imp, true_or, exists_or_eq_left, and_self,
        Cmd.write.injEq, Write.assignTask.injEq, forall_except]
      exact fun _ => ⟨time, task, .inl ⟨rfl, rfl⟩⟩

theorem removeWorker_sourced (hs : K.sawWorker w worker) :
    Sourced call K (removeWorker w worker) := by
  cases h : worker.assignedTaskId with
  | none => simp only [removeWorker, pushBack, h, knows_bind, knows_sendHeartbeat, Cmd.sourced,
    implies_true, and_self, knows_sendTask, History.deleted, Prod.exists, exists_and_right,
    and_true, knows_write, List.mem_cons, Sigma.mk.injEq, heq_eq_eq, true_and, Cmd.write.injEq,
    reduceCtorEq, false_and, false_or, forall_except, true_or, knows_ok]
  | some t =>
    simp only [removeWorker, pushBack, h, knows_bind, knows_sendHeartbeat, Cmd.sourced,
      implies_true, and_self, knows_sendTask, History.deleted, Prod.exists, exists_and_right,
      and_true, knows_write, List.mem_cons, Sigma.mk.injEq, heq_eq_eq, true_and, Cmd.write.injEq,
      reduceCtorEq, false_and, false_or, forall_except, true_or, knows_select, knows_now]
    exact fun _ => ⟨worker, hs.cons _, h⟩

theorem shutdownWorker_sourced (hs : K.sawWorker w worker) :
    Sourced call K (shutdownWorker w worker op) := by
  cases op with
  | force => exact removeWorker_sourced hs
  | graceful =>
    rw [shutdownWorker]
    split
    · exact removeWorker_sourced hs
    · simp [Cmd.sourced, forall_except]

theorem updateWorker_sourced : ∀ {n K}, Knows (Cmd.sourced call) K (updateWorker w time n)
    fun K r => ∀ worker, r = .ok worker → K.sawWorker w worker
  | 0, _ => by simp [updateWorker]
  | n + 1, K => by
    simp only [updateWorker, knows_recover, knows_write]
    refine ⟨trivial, fun r => ?_⟩
    cases r with
    | ok worker =>
      rintro _ ⟨⟩
      exact .inr (.inr ⟨time, List.mem_cons_self⟩)
    | error e =>
      dsimp only
      split
      · simp
      · exact updateWorker_sourced

theorem taskExpired_sourced (hs : K.sawWorker w worker) :
    Knows (Cmd.sourced call) K (taskExpired worker) fun K _ => K.sawWorker w worker := by
  cases h : worker.assignedTaskId with
  | none => simpa [taskExpired, h] using hs
  | some t =>
    simp [taskExpired, h, Cmd.sourced, forall_except, hs.cons]
    intro task
    cases task with
    | none => simpa using hs.cons _
    | some task =>
      dsimp only
      split
      · simp [Cmd.sourced, forall_except, (hs.cons _).cons]
      · simpa using hs.cons _

theorem heartbeat_sourced : Sourced call K (heartbeat w) := by
  simp [heartbeat, updateWorkerWithTransaction, Cmd.sourced, forall_except]
  intro time
  refine updateWorker_sourced.mono fun K r hr => ?_
  cases r with
  | error => trivial
  | ok worker =>
    refine (taskExpired_sourced (hr worker rfl)).mono fun K r hs => ?_
    cases r with
    | error => trivial
    | ok expired =>
      cases expired
      · simp [Cmd.sourced]
      · exact removeWorker_sourced hs

theorem unregisterWorkers_sourced : ∀ {ids K}, (∀ w ∈ ids, K.deleted w) →
    Sourced call K (unregisterWorkers ids)
  | [], _, _ => trivial
  | w :: ids, K, h => by
    have hw : ∀ es : History, Sourced call (es ++ K) (unregisterWorkers ids) := fun es =>
      unregisterWorkers_sourced fun w hw =>
        (h w (List.mem_cons_of_mem _ hw)).mono (List.subset_append_right es K)
    simp [unregisterWorkers, Cmd.sourced]
    exact ⟨h w List.mem_cons_self, ⟨hw [_, _], fun _ => hw [_, _]⟩,
      fun _ => ⟨hw [_, _], fun _ => hw [_, _]⟩⟩

/-- What the handler knows it still knows after the tasks are queued again. -/
theorem reassignTasks_sourced {P : History → Prop} (hP : ∀ K e, P K → P (e :: K)) :
    ∀ {tasks K}, P K → Knows (Cmd.sourced call) K (reassignTasks tasks) fun K _ => P K
  | [], _, h => h
  | (t, task) :: tasks, K, h => by
    simp [reassignTasks, Cmd.sourced, forall_except]
    exact ⟨fun _ => ⟨reassignTasks_sourced hP (hP _ _ (hP _ _ h)),
      fun _ => reassignTasks_sourced hP (hP _ _ (hP _ _ h))⟩, fun _ => hP _ _ h⟩

theorem shutdown_sourced {res : Db.Shutdown} (h : ∀ w ∈ res.removedWorkerIds, K.deleted w) :
    Sourced call K do
      reassignTasks res.tasksToReassign
      unregisterWorkers res.removedWorkerIds
      return a := by
  refine (knows_bind _ _).2 ?_
  have hd : Knows (Cmd.sourced call) K (reassignTasks res.tasksToReassign) fun K _ =>
      ∀ w ∈ res.removedWorkerIds, K.deleted w :=
    reassignTasks_sourced (fun K e hK w hw => (hK w hw).mono (List.subset_cons_self e K)) h
  refine hd.mono fun K r hK => ?_
  cases r with
  | error => trivial
  | ok =>
    refine (knows_bind _ _).2 ((unregisterWorkers_sourced hK).mono fun K r _ => ?_)
    cases r <;> trivial

theorem shutdownWorkersByFilter_sourced :
    Sourced call K (shutdownWorkersByFilter userId req) := by
  simp only [shutdownWorkersByFilter, ne_eq, ite_not, knows_bind, knows_okOr, Prod.forall,
    implies_true, and_true, knows_select, Cmd.sourced, forall_except, true_and]
  intro group g role name _
  split
  · refine (knows_bind _ _).2 ⟨trivial, fun r => ?_⟩
    cases r with
    | error => trivial
    | ok res =>
      exact shutdown_sourced fun w hw => .inr (.inr (.inl ⟨g, req, res, List.mem_cons_self, hw⟩))
  · simp

theorem shutdownChunks_sourced : ∀ {chunks K},
    Knows (Cmd.sourced call) K (shutdownChunks userId op chunks) fun K' r =>
      K ⊆ K' ∧ ∀ res, r = .ok res → ∀ w ∈ res.1.removedWorkerIds, K'.deleted w
  | [], K => ⟨fun _ h => h, by
    rintro res ⟨⟩ w hw
    cases hw⟩
  | chunk :: chunks, K => by
    simp only [shutdownChunks, knows_bind, knows_write]
    refine ⟨trivial, fun r => ?_⟩
    cases r with
    | error => exact ⟨fun _ h => List.mem_cons_of_mem _ h, fun _ h => by cases h⟩
    | ok res =>
      refine shutdownChunks_sourced.mono fun K' r hr => ?_
      cases r with
      | error =>
        exact ⟨fun _ h => hr.1 (List.mem_cons_of_mem _ h), fun _ h => by cases h⟩
      | ok rest =>
        refine ⟨fun _ h => hr.1 (List.mem_cons_of_mem _ h), ?_⟩
        rintro _ ⟨⟩ w hw
        rcases List.mem_append.1 hw with hw | hw
        · exact .inr (.inr (.inr ⟨_, _, _, res, hr.1 List.mem_cons_self, hw⟩))
        · exact hr.2 _ rfl w hw

theorem shutdownWorkersByUuids_sourced :
    Sourced call K (shutdownWorkersByUuids userId uuids op) := by
  rw [shutdownWorkersByUuids]
  split
  · simp
  · refine (knows_bind _ _).2 (shutdownChunks_sourced.mono fun K' r hr => ?_)
    cases r with
    | error => trivial
    | ok res => exact shutdown_sourced fun w hw => hr.2 _ rfl w hw

theorem findWorker_sourced {f : WorkerId × Worker → Service α}
    (h : ∀ w worker K, K.sawWorker w worker → Sourced call K (f (w, worker))) :
    Sourced call K (findWorker uuid >>= f) := by
  simp [findWorker, Cmd.sourced, forall_except]
  rintro _ w worker rfl
  exact h _ _ _ (.inr (.inl ⟨uuid, List.mem_cons_self⟩))

theorem checkCommonGroup_sourced {f : Unit → Service α} (h : ∀ e, Sourced call (e :: K) (f ())) :
    Sourced call K (checkCommonGroup userId w workerRoles userRoles >>= f) := by
  simp [checkCommonGroup, Cmd.sourced, forall_except]
  exact fun _ _ _ _ => h _

theorem reportSubmit_sourced (h : K.sawTask t task) (hw : task.assignedWorker = some w) :
    Sourced (.reportTask w wu t (.submit req)) K (reportSubmit w t task req time) := by
  rw [reportSubmit]
  split
  · simp
  simp only [ne_eq, ite_not, knows_bind, knows_okOr, implies_true, and_true, knows_recover,
    knows_fail, knows_select, Cmd.sourced, forall_except, true_and]
  intro user _ _
  split
  swap
  · simp
  simp only [knows_bind, knows_okOr, implies_true, and_true, knows_select, Cmd.sourced,
    forall_except, true_and]
  intro group _ _
  split
  swap
  · simp
  simp only [knows_bind, knows_pure, knows_write, Cmd.sourced, Call.reportTask.injEq,
    ReportTaskOp.submit.injEq, true_and, exists_and_left, Prod.exists, exists_and_right,
    ↓existsAndEq, and_true, forall_except, implies_true, and_self, knows_recover, knows_fail,
    knows_okOr, knows_select, forall_eq_apply_imp_iff]
  intro role
  have hs : ∀ es : History, History.sawTask (es ++ K) t task := fun es =>
    List.mem_append_right es h
  refine (workerSubmitPendingTask_sourced (hs [_, _, _])).mono fun K' r hr => ?_
  cases r with
  | error => simp
  | ok resp =>
    simp
    obtain ⟨p, row, hp, hu, hup, hst⟩ := hr.2 resp rfl
    exact ⟨task, hr.1 (hs [_, _, _]), hw, p, row.1, row.2, hp, hu, hup, hst⟩

theorem workerTriggerPendingTask_sourced
    (h : call = .triggerPendingTask uuid ∨ K.committedUpstream uuid) (hn : K.untriggered) :
    Knows (Cmd.sourced call) K (workerTriggerPendingTask uuid) fun K' _ => K ⊆ K' := by
  have hk : Sourced call K (workerTriggerPendingTask uuid) := by
    simp only [workerTriggerPendingTask, Nat.toString_eq_repr, knows_bind, knows_sendTask,
      Cmd.sourced, implies_true, and_self, knows_select, forall_except, knows_write,
      exists_and_right, and_true, knows_now, List.mem_cons, Sigma.mk.injEq, reduceCtorEq,
      false_and, false_or, true_and, knows_okOr, Prod.forall, Cmd.select.injEq,
      Select.pendingTask.injEq, heq_eq_eq, Except.ok.injEq]
    intro found t row hf time
    refine ⟨uuid, ⟨row, .inl ⟨rfl, hf.symm⟩⟩, ?_, ?_⟩
    · rcases h with h | ⟨w, t, archived, time, st, hm, hd⟩
      · exact .inl h
      · exact .inr ⟨w, t, archived, time, st, List.mem_append_right [_, _] hm, hd⟩
    · simp only [History.untriggered, List.mem_cons, Sigma.mk.injEq, reduceCtorEq, false_and,
      false_or] at hn ⊢
      exact hn
  apply hk.extends.mono
  intro K' r hr
  exact hr.1

theorem triggerDownstream_sourced (h : ∀ u, uuid = some u → K.committedUpstream u)
    (hn : K.untriggered) :
    Knows (Cmd.sourced call) K (triggerDownstream uuid) fun K' _ => K ⊆ K' := by
  cases uuid with
  | none => exact fun _ h => h
  | some u => exact workerTriggerPendingTask_sourced (.inr (h u rfl)) hn

theorem unregisterGraceful_sourced (h : ws = .gracefulShutdown → K.deleted w) :
    Sourced call K (unregisterGraceful w ws) := by
  cases ws with
  | normal => trivial
  | gracefulShutdown => simp [unregisterGraceful, Cmd.sourced, h rfl]

theorem reportCommit_sourced (h : K.sawTask t task) (hw : task.assignedWorker = some w)
    (hn : K.untriggered) :
    Sourced (.reportTask w wu t (.commit res)) K (reportCommit w wu t task res time) := by
  rw [reportCommit]
  split
  · simp
  next hst =>
    have hs : task.state = .finished ∨ task.state = .cancelled := by
      by_contra hc
      exact hst (not_or.1 hc)
    refine (knows_bind _ _).2 ⟨⟨wu, res, task, time, rfl, h, hw, hs, rfl⟩, fun r => ?_⟩
    cases r with
    | error => trivial
    | ok ws =>
      have key : ∀ e : Entry Cmd Cmd.Resp, (∀ t n r, e ≠ ⟨.write (.triggerTask t n), r⟩) →
          Sourced (.reportTask w wu t (.commit res))
            (e :: ⟨.write (.commitTask w t (committedTask task res wu time) time), .ok ws⟩ :: K)
            (triggerDownstream task.downstreamTaskUuid >>= fun _ => unregisterGraceful w ws) := by
        intro e he
        refine (knows_bind _ _).2 ((triggerDownstream_sourced ?_ ?_).mono fun K' r hK' => ?_)
        · exact fun u hu => ⟨w, t, _, time, ws, by simp, hu⟩
        · intro t n r hm
          rcases List.mem_cons.1 hm with hm | hm
          · exact he t n r hm.symm
          rcases List.mem_cons.1 hm with hm | hm
          · cases hm
          · exact hn t n r hm
        · cases r with
          | error => trivial
          | ok =>
            refine unregisterGraceful_sourced fun hws => .inr (.inl ?_)
            subst hws
            exact ⟨t, _, time, hK' (List.mem_cons_of_mem _ List.mem_cons_self)⟩
      refine (knows_bind _ _).2 ((knows_ignore _).2 ((knows_sendTask _ _).2 ⟨trivial, ?_, ?_⟩))
      · exact key ⟨.sendTask (.removeTask t), .ok ()⟩ fun _ _ _ h => by cases h
      · exact fun e => key ⟨.sendTask (.removeTask t), .error e⟩ fun _ _ _ h => by cases h

theorem reportTask_sourced (hn : K.untriggered) :
    Sourced (.reportTask w wu t op) K (reportTask w wu t op) := by
  simp only [reportTask, Nat.toString_eq_repr, ne_eq, ite_not, knows_bind, knows_okOr,
    implies_true, and_true, knows_select, Cmd.sourced, forall_except, true_and, knows_now]
  intro time found task hf
  subst hf
  split
  swap
  · simp
  next hw =>
    have hs : History.sawTask (⟨.select (.task t), .ok (some task)⟩ :: ⟨.now, .ok time⟩ :: K)
        t task := List.mem_cons_self
    have hn' : History.untriggered
        (⟨.select (.task t), .ok (some task)⟩ :: ⟨.now, .ok time⟩ :: K) := by
      simp only [History.untriggered, List.mem_cons, Sigma.mk.injEq, reduceCtorEq, false_and,
        false_or] at hn ⊢
      exact hn
    cases op with
    | finish | cancel =>
      simp only [knows_bind, knows_pure, knows_write, Cmd.sourced, Call.reportTask.injEq, true_and,
        reduceCtorEq, or_false, exists_and_left, exists_and_right, ↓existsAndEq, and_true,
        forall_except, implies_true, and_self, or_true]
      exact ⟨task, hs, hw⟩
    | submit req =>
      refine (knows_bind _ _).2 ((reportSubmit_sourced hs hw).mono fun K' r _ => ?_)
      cases r <;> trivial
    | commit res =>
      refine (knows_bind _ _).2 ((reportCommit_sourced hs hw hn').mono fun K' r _ => ?_)
      cases r <;> trivial
    | upload contentType contentLength =>
      refine (knows_bind _ _).2 (groupUploadArtifact_sourced.mono fun K' r _ => ?_)
      cases r <;> trivial

theorem removeTasks_sourced : ∀ {ids K}, Sourced call K (removeTasks ids)
  | [], _ => trivial
  | t :: ids, K => by
    simp [removeTasks, removeTask, Cmd.sourced]
    exact ⟨removeTasks_sourced, fun _ => removeTasks_sourced⟩

theorem nonempty_sourced (msg : String) (xs : Option (List α)) :
    Sourced call K (nonempty msg xs) := by
  rw [nonempty]
  split <;> trivial

theorem queriedGroup_sourced : ∀ name, Sourced call K (queriedGroup userId name)
  | some _ => trivial
  | none => by simp [queriedGroup, Cmd.sourced, forall_except]

theorem checkRole_sourced : Sourced call K (checkRole userId name role) := by
  simp [checkRole, Cmd.sourced, forall_except]
  intro r
  cases r with
  | none => simp
  | some r =>
    dsimp only
    split <;> simp

/-- A step of a program about whose result nothing is asked. -/
theorem Sourced.bind {p : Service α} {f : α → Service β} {post : History → Except Error β → Prop}
    (h : Sourced call K p) (he : ∀ K e, post K (.error e))
    (hf : ∀ K a, Knows (Cmd.sourced call) K (f a) post) :
    Knows (Cmd.sourced call) K (p >>= f) post := by
  refine (knows_bind _ _).2 (h.mono fun K' r _ => ?_)
  cases r with
  | error e => exact he _ e
  | ok a => exact hf _ a

theorem checkTaskListQuery_sourced :
    Knows (Cmd.sourced call) K (checkTaskListQuery userId query role) fun _ r =>
      ∀ res, r = .ok res → res.1.states = query.states := by
  have he : ∀ (e : Error) (res : TasksQueryReq × String), Except.error e = .ok res →
      res.1.states = query.states := fun _ _ h => by cases h
  refine (nonempty_sourced _ _).bind (fun _ => he) fun _ _ => ?_
  refine (nonempty_sourced _ _).bind (fun _ => he) fun _ _ => ?_
  refine (nonempty_sourced _ _).bind (fun _ => he) fun _ _ => ?_
  refine (nonempty_sourced _ _).bind (fun _ => he) fun _ _ => ?_
  refine (queriedGroup_sourced _).bind (fun _ => he) fun _ _ => ?_
  refine checkRole_sourced.bind (fun _ => he) fun _ _ => ?_
  rintro _ ⟨⟩
  rfl

theorem cancellableStates_subset (states : Option (List TaskState)) :
    cancellableStates states ⊆ [.ready, .pending] := by
  rw [cancellableStates]
  split
  · exact List.Subset.refl _
  · exact List.filter_subset_self _

theorem cancelTasksByFilter_sourced : Sourced call K (cancelTasksByFilter userId req) := by
  refine (knows_bind _ _).2 (checkTaskListQuery_sourced.mono fun K r hr => ?_)
  cases r with
  | error => trivial
  | ok res =>
    obtain ⟨query, name⟩ := res
    have hq := hr _ rfl
    cases hf : applyTaskFilters query with
    | error => simp [hf]
    | ok filter =>
      have hst : filter.states = some (cancellableStates req.states) :=
        (applyTaskFilters_states hf).trans hq
      simp only [knows_bind, hf, knows_ofExcept, knows_write, forall_except]
      refine ⟨⟨_, hst, cancellableStates_subset _⟩, fun ids => ?_, fun _ => trivial⟩
      refine removeTasks_sourced.mono fun K r _ => ?_
      cases r <;> trivial

theorem cancelChunks_sourced : ∀ {chunks K}, Sourced call K (cancelChunks userId chunks)
  | [], _ => trivial
  | chunk :: chunks, K => by
    simp only [cancelChunks, knows_bind, knows_write, forall_except, Sourced]
    refine ⟨trivial, fun found => cancelChunks_sourced.mono fun K r _ => ?_, fun _ => trivial⟩
    cases r <;> trivial

theorem cancelTasksByUuids_sourced : Sourced call K (cancelTasksByUuids userId uuids) := by
  rw [cancelTasksByUuids]
  split
  · trivial
  · refine cancelChunks_sourced.bind (fun _ _ => trivial) fun _ _ => ?_
    exact removeTasks_sourced.bind (fun _ _ => trivial) fun _ _ => trivial

theorem submitTasks_sourced : ∀ {reqs K}, Sourced call K (submitTasks userId reqs)
  | [], _ => trivial
  | req :: reqs, K => by
    simp only [submitTasks, knows_bind, knows_recover, knows_map, Sourced]
    refine userSubmitTask_sourced.mono fun K r _ => ?_
    cases r with
    | error | ok =>
      refine submitTasks_sourced.mono fun K r _ => ?_
      cases r <;> trivial

theorem setupWorkerQueues_sourced (h : call = .restoreWorkers ∨ K.inserted w) :
    Sourced call K (setupWorkerQueues w tags) := by
  have hi : ∀ e : Entry Cmd Cmd.Resp, call = .restoreWorkers ∨ History.inserted (e :: K) w :=
    fun e => h.imp_right fun ⟨u, c, t, l, n, row, hm⟩ =>
      ⟨u, c, t, l, n, row, List.mem_cons_of_mem _ hm⟩
  simp [setupWorkerQueues, Cmd.sourced, forall_except, hi]

theorem setupWorkers_sourced : ∀ {ws K}, Sourced .restoreWorkers K (setupWorkers ws)
  | [], _ => trivial
  | (_, _) :: _, _ => (setupWorkerQueues_sourced (.inl rfl)).bind (fun _ _ => trivial)
    fun _ _ => setupWorkers_sourced

theorem registerWorker_sourced : Sourced call K (registerWorker c tags labels groups) := by
  simp only [registerWorker, knows_bind, knows_newUuid, knows_now, knows_write, knows_select,
    knows_okOr, forall_except, Cmd.sourced, Sourced]
  refine ⟨trivial, fun _ => ⟨trivial, fun _ => ⟨trivial, fun _ => ⟨trivial, fun _ =>
    ⟨fun _ _ => ⟨trivial, fun _ => ?_, fun _ => trivial⟩, fun _ => trivial⟩,
    fun _ => trivial⟩, fun _ => trivial⟩, fun _ => trivial⟩, fun _ => trivial⟩
  refine (setupWorkerQueues_sourced (.inr ?_)).mono fun K r _ => ?_
  · exact ⟨_, _, _, _, _, _, List.mem_cons_of_mem _ (List.mem_cons_of_mem _ List.mem_cons_self)⟩
  · cases r <;> trivial

theorem runTimeout_sourced : Sourced call K (runTimeout w) := by
  simp only [runTimeout, handleTimeout, knows_recover, knows_bind, knows_select, forall_except,
    Sourced]
  refine ⟨trivial, fun worker => ?_, fun _ => ⟨trivial, fun _ => trivial⟩⟩
  cases worker with
  | none => trivial
  | some worker =>
    refine (knows_ignore _).2 ((removeWorker_sourced ?_).mono fun K r _ => trivial)
    exact .inl List.mem_cons_self

theorem userChangeTask_sourced : Sourced call K (userChangeTask userId uuid req) := by
  rw [userChangeTask]
  split <;> simp [Cmd.sourced, forall_except]

theorem userUploadArtifact_sourced :
    Sourced call K (userUploadArtifact userId uuid contentType contentLength) := by
  have hf : ∀ K, Sourced call K (findTaskByUuid uuid) := by
    intro K
    simp only [findTaskByUuid, knows_bind, knows_select, forall_except, Sourced]
    refine ⟨trivial, fun row => ?_, fun _ => trivial⟩
    cases row <;> simp [Cmd.sourced, forall_except]
  refine (hf _).bind (fun _ _ => trivial) fun K task => ?_
  simp [Cmd.sourced, forall_except]
  intro found role _
  split
  · simp
  · exact groupUploadArtifact_sourced

theorem userReplaceWorkerTags_sourced :
    Sourced call K (userReplaceWorkerTags userId uuid tags) := by
  rw [userReplaceWorkerTags]
  split
  · trivial
  · refine findWorker_sourced fun w worker K _ => checkCommonGroup_sourced fun e => ?_
    simp [Cmd.sourced, forall_except]

theorem userReplaceWorkerLabels_sourced :
    Sourced call K (userReplaceWorkerLabels userId uuid labels) := by
  rw [userReplaceWorkerLabels]
  split
  · trivial
  · refine findWorker_sourced fun w worker K _ => checkCommonGroup_sourced fun e => ?_
    simp [Cmd.sourced, forall_except]

theorem userUpdateWorkerGroups_sourced :
    Sourced call K (userUpdateWorkerGroups userId uuid relations) := by
  rw [userUpdateWorkerGroups]
  split
  · trivial
  · refine findWorker_sourced fun w worker K _ => checkCommonGroup_sourced fun e => ?_
    simp [Cmd.sourced, forall_except]
    intro groups
    split <;> simp [Cmd.sourced]

theorem userRemoveWorkerGroups_sourced :
    Sourced call K (userRemoveWorkerGroups userId uuid groups) := by
  rw [userRemoveWorkerGroups]
  split
  · trivial
  · refine findWorker_sourced fun w worker K _ => checkCommonGroup_sourced fun e => ?_
    simp [Cmd.sourced, forall_except]
    intro groups
    split <;> simp [Cmd.sourced]

theorem Sourced.once {p : Service α} {f : α → Reply} (h : Sourced call K p)
    (hf : ∀ a r, f a ≠ .task r) :
    (Service.once f p).Knows (Cmd.sourced call) (Reply.sourced call) K := by
  refine (knows_once f p).2 (h.mono fun K r _ => ?_)
  cases r with
  | error => trivial
  | ok a =>
    cases hfa : f a with
    | task r => exact (hf a r hfa).elim
    | _ => simp [Reply.sourced, Except.map, hfa]

end Service

open Service in
/-- Every handler obtains the arguments of its commands before it issues them. The loop of
`fetch_task` may start over with the entries of its earlier iterations. -/
theorem program_sourced {K : History} (h : K = [] ∨ ∃ w, c = .fetchTask w) :
    (program c).Knows (Cmd.sourced c) (Reply.sourced c) K := by
  cases c with
  | fetchTask w =>
    refine (Prog.knows_bind _ _).2 (fetchTask_sourced.mono fun K r hr => ?_)
    cases r with
    | error => trivial
    | ok x =>
      cases x with
      | again => exact ⟨w, rfl⟩
      | done x =>
        cases x with
        | none => trivial
        | some x =>
          obtain ⟨time, task, h⟩ := hr x rfl
          exact ⟨w, time, task, rfl, h⟩
  | registerWorker => exact registerWorker_sourced.once fun _ _ => nofun
  | unregisterWorker w =>
    refine Sourced.once ?_ fun _ _ => nofun
    simp [unregisterWorker, Cmd.sourced, forall_except]
    rintro _ worker rfl
    exact removeWorker_sourced (.inl List.mem_cons_self)
  | heartbeat => exact heartbeat_sourced.once fun _ _ => nofun
  | reportTask =>
    refine (reportTask_sourced ?_).once fun _ _ => nofun
    rcases h with rfl | ⟨_, h⟩
    · exact fun _ _ _ h => nomatch h
    · cases h
  | removeWorkerByUuid uuid op =>
    exact (findWorker_sourced fun w worker K => shutdownWorker_sourced).once fun _ _ => nofun
  | userRemoveWorkerByUuid =>
    exact (findWorker_sourced fun w worker K hs => checkCommonGroup_sourced fun e =>
      shutdownWorker_sourced (hs.cons e)).once fun _ _ => nofun
  | shutdownWorkersByFilter => exact shutdownWorkersByFilter_sourced.once fun _ _ => nofun
  | shutdownWorkersByUuids => exact shutdownWorkersByUuids_sourced.once fun _ _ => nofun
  | replaceWorkerTags => exact userReplaceWorkerTags_sourced.once fun _ _ => nofun
  | replaceWorkerLabels => exact userReplaceWorkerLabels_sourced.once fun _ _ => nofun
  | updateWorkerGroups => exact userUpdateWorkerGroups_sourced.once fun _ _ => nofun
  | removeWorkerGroups => exact userRemoveWorkerGroups_sourced.once fun _ _ => nofun
  | submitTask => exact userSubmitTask_sourced.once fun _ _ => nofun
  | batchSubmitTasks userId reqs =>
    refine Sourced.once ?_ fun _ _ => nofun
    rw [userBatchSubmitTasks]
    split
    · trivial
    · exact submitTasks_sourced
  | changeTask => exact userChangeTask_sourced.once fun _ _ => nofun
  | changeTaskLabels =>
    refine Sourced.once ?_ fun _ _ => nofun
    simp [userChangeTaskLabels, Cmd.sourced]
  | cancelTask =>
    refine Sourced.once ?_ fun _ _ => nofun
    simp [userCancelTask, removeTask, Cmd.sourced, forall_except]
  | cancelTasksByFilter => exact cancelTasksByFilter_sourced.once fun _ _ => nofun
  | cancelTasksByUuids => exact cancelTasksByUuids_sourced.once fun _ _ => nofun
  | uploadArtifact => exact userUploadArtifact_sourced.once fun _ _ => nofun
  | restoreWorkers =>
    refine Sourced.once ?_ fun _ _ => nofun
    simp only [restoreWorkers, knows_bind, knows_select, forall_except, Sourced]
    exact ⟨trivial, fun _ => setupWorkers_sourced, fun _ => trivial⟩
  | timeout => exact runTimeout_sourced.once fun _ _ => nofun
  | triggerPendingTask uuid =>
    refine Sourced.once ?_ fun _ _ => nofun
    refine (workerTriggerPendingTask_sourced (.inl rfl) ?_).mono fun _ _ _ => trivial
    rcases h with rfl | ⟨_, h⟩
    · exact fun _ _ _ h => nomatch h
    · cases h

end Mitosis
