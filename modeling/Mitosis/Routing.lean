import Mitosis.Proof.Alone
import Mitosis.Proof.Eligible
import Mitosis.Proof.Queues

namespace Mitosis
set_option autoImplicit true

namespace Service

theorem bind_assoc (p : Service α) (f : α → Service β) (g : β → Service γ) :
    (p >>= f) >>= g = p >>= fun a => f a >>= g := by
  apply (Prog.bind_assoc _ _ _).trans
  apply congrArg (Prog.bind p)
  funext r
  cases r <;> rfl

/-- Queue a task for the workers that the database finds for it. -/
def enqueue (test : RoleTest) (id : TaskId) (task : ActiveTask) (msg : String) : Service Unit := do
  let workers ← select (.eligibleWorkers test task.groupId task.tags)
  sendTask (.batchAddTask workers id task.priority) msg

/-- The same after a change of the task, which takes it from the queues first. -/
def requeue (id : TaskId) (task : ActiveTask) : Service Unit := do
  let workers ← select (.eligibleWorkers .anyWriteAdmin task.groupId task.tags)
  sendTask (.removeTask id) "send remove task op failed"
  sendTask (.batchAddTask workers id task.priority) "send batch add task op failed"

/-- The service comes to a part with something that it has found out. -/
def Comes (p : Service α) (part : β → Service Unit) : Prop :=
  ∃ (first : Service β) (rest : β → Service α), p = (do
    let b ← first
    part b
    rest b)

theorem bind_return (p : Service Unit) : (p >>= fun _ => return ()) = p := by
  induction p with
  | ret r => cases r <;> rfl
  | call c k ih => exact congrArg (Prog.call c) (funext ih)

theorem comes_of_eq {p : Service Unit} {first : Service β} {part : β → Service Unit}
    (h : p = first >>= part) : Comes p part := by
  refine ⟨first, fun _ => return (), ?_⟩
  simp only [bind_return]
  exact h

theorem userSubmitTask_comes (creatorId : UserId) (req : SubmitTaskReq) :
    Comes (userSubmitTask creatorId req) fun found : TaskId × ActiveTask =>
      enqueue .anyWriteAdmin found.1 found.2 "send batch add task failed" := by
  refine ⟨do
    let now ← now
    let group ← countTask req.groupName now
    let uuid ← newUuid
    ofExcept (checkTaskSpec req.taskSpec)
    write (.insertTask (newTask creatorId req group uuid now)),
    fun found => return ⟨found.2.taskId, found.2.uuid⟩, ?_⟩
  simp only [enqueue, bind_assoc]
  rfl

theorem workerTriggerPendingTask_comes (uuid : Uuid) :
    Comes (workerTriggerPendingTask uuid) fun found : TaskId × ActiveTask =>
      enqueue .anyWriteAdmin found.1 found.2 "send batch add task failed" := by
  refine comes_of_eq (?_ : _ = (do
    let task ← select (.pendingTask uuid)
    let found ← okOr (.apiError (.notFound s!"Pending task with uuid {uuid}")) task
    let now ← now
    let task ← write (.triggerTask found.1 now)
    return (found.1, task)) >>= _)
  simp only [bind_assoc]
  rfl

theorem userChangeTask_comes (userId : UserId) (uuid : Uuid) {req : ChangeTaskReq}
    (h : (req.tags.isNone && req.timeout.isNone && req.priority.isNone &&
      req.taskSpec.isNone) = false) :
    Comes (userChangeTask userId uuid req) fun found : TaskId × ActiveTask =>
      requeue found.1 found.2 := by
  apply comes_of_eq
  rw [userChangeTask, h]
  rfl

theorem pushBack_comes (w : WorkerId) (t : TaskId) :
    Comes (pushBack w (some t)) fun task =>
      enqueue .gtRead t task "send batch add task op failed" := by
  refine comes_of_eq (?_ : _ = (do
    let now ← now
    write (.pushBackTask w t now)) >>= _)
  simp only [bind_assoc]
  rfl

theorem reassignTasks_comes (t : TaskId) (task : ActiveTask) (tasks : List (TaskId × ActiveTask)) :
    Comes (reassignTasks ((t, task) :: tasks)) fun _ : Unit => reassignTasks [(t, task)] := by
  refine ⟨return (), fun _ => reassignTasks tasks, ?_⟩
  simp only [reassignTasks, bind_assoc]
  rfl

end Service

inductive EnqueuePath where
  | setupWorkerQueues | userSubmitTask | workerTriggerPendingTask | userChangeTask | removeWorker
  | shutdownWorkersByFilter | shutdownWorkersByUuids

namespace EnqueuePath
open Service

/-- The part of the path that decides, for the rows that it has read. -/
def service (path : EnqueuePath) (w : WorkerId) (worker : Worker) (t : TaskId) (task : ActiveTask) :
    Service Unit :=
  match path with
  | setupWorkerQueues => Service.setupWorkerQueues w worker.tags
  | userSubmitTask => enqueue .anyWriteAdmin t task "send batch add task failed"
  | workerTriggerPendingTask => enqueue .anyWriteAdmin t task "send batch add task failed"
  | userChangeTask => requeue t task
  | removeWorker => enqueue .gtRead t task "send batch add task op failed"
  | shutdownWorkersByFilter => reassignTasks [(t, task)]
  | shutdownWorkersByUuids => reassignTasks [(t, task)]

end EnqueuePath

def EnqueuePath.enqueues (path : EnqueuePath) (db : Db) (w : WorkerId) (worker : Worker)
    (t : TaskId) (task : ActiveTask) : Bool :=
  match Service.runs (path.service w worker t task) (List.replicate 4 none) (.serving db) with
  | some (.ok (), (_, s)) => s.taskChan.any fun op => (op.adds w t).isSome
  | _ => false

def Db.routes (db : Db) (w : WorkerId) (worker : Worker) (task : ActiveTask) : Bool :=
  (db.groupWorker.find (task.groupId, w)).any (fun role => role ∈ [.write, .admin]) &&
    (worker.tags.isEmpty || containsAll worker.tags task.tags)

namespace EnqueuePath
variable {db : Db} {w : WorkerId} {worker : Worker} {t : TaskId} {task : ActiveTask}

theorem enqueues_of_runs {path : EnqueuePath}
    (h : Service.runs (path.service w worker t task) (List.replicate 4 none) (.serving db) =
      some (.ok (), (rest, s))) :
    path.enqueues db w worker t task = s.taskChan.any fun op => (op.adds w t).isSome := by
  rw [enqueues, h]

theorem any_adds_workers {ops : List TaskDispatcherOp} (h : ∀ op ∈ ops, op.adds w t = none) :
    (ops ++ [TaskDispatcherOp.batchAddTask ws t p]).any
        (fun op => (TaskDispatcherOp.adds w t op).isSome) =
      decide (w ∈ ws) := by
  have hops : ops.any (fun op => (op.adds w t).isSome) = false := by
    rw [List.any_eq_false]
    intro op hop
    rw [h op hop]
    exact Bool.false_ne_true
  rw [List.any_append, hops, Bool.false_or, List.any_cons, List.any_nil, Bool.or_false,
    TaskDispatcherOp.adds]
  by_cases hw : w ∈ ws
  · rw [if_pos ⟨hw, rfl⟩, decide_eq_true hw]
    rfl
  · rw [if_neg fun h => hw h.1, decide_eq_false hw]
    rfl

theorem mem_activeTasksOf (hw : db.workers.find w = some worker)
    (ht : db.activeTasks.find t = some task) :
    (∃ p, (t, p) ∈ db.activeTasksOf w worker.tags) ↔
      db.eligible w task.groupId task.tags = true := by
  simp only [Db.activeTasksOf, List.mem_filterMap, Db.eligible_iff, hw, Option.isSome_some,
    true_and]
  constructor
  · rintro ⟨p, ⟨t', task'⟩, hm, h⟩
    split at h
    next hc =>
      obtain ⟨⟩ := h
      obtain rfl := Option.some.inj (ht.symm.trans (Table.mem_rows.1 hm))
      obtain ⟨role, hf, hr⟩ := (Option.any_eq_true _ _).1 hc.1
      have hrole := Db.roleTest_holds .gtRead role
      exact ⟨⟨role, hf, of_decide_eq_true (hrole.symm.trans hr)⟩, worker, rfl, hc.2⟩
    next => cases h
  · rintro ⟨⟨role, hf, hr⟩, worker', hw', hc⟩
    obtain rfl := Option.some.inj hw'
    have hrole := (Db.roleTest_holds .gtRead role).trans (decide_eq_true hr)
    refine ⟨task.priority, (t, task), Table.mem_rows.2 ht, ?_⟩
    have hany : (db.groupWorker.find (task.groupId, w)).any (fun role => role.toValue > 0) = true := by
      rw [hf]
      exact hrole
    rw [if_pos ⟨hany, hc⟩]

theorem any_adds_tasks : ([.registerWorker w, .addTasks w ts].any fun op =>
    (TaskDispatcherOp.adds w t op).isSome) = true ↔ ∃ p, (t, p) ∈ ts := by
  simp [TaskDispatcherOp.adds]

theorem enqueues_eq (path : EnqueuePath) (hw : db.workers.find w = some worker)
    (ht : db.activeTasks.find t = some task) :
    path.enqueues db w worker t task = db.eligible w task.groupId task.tags := by
  have hworkers : ∀ test ops, (∀ op ∈ ops, TaskDispatcherOp.adds w t op = none) →
      (ops ++ [.batchAddTask (db.eligibleWorkers test task.groupId task.tags) t
        task.priority]).any (fun op => (TaskDispatcherOp.adds w t op).isSome) =
        db.eligible w task.groupId task.tags := by
    intro test ops h
    rw [any_adds_workers h, Bool.eq_iff_iff, decide_eq_true_eq, Db.mem_eligibleWorkers]
  have hnil : ∀ op ∈ ([] : List TaskDispatcherOp), op.adds w t = none := by
    intro op hop
    cases hop
  cases path with
  | setupWorkerQueues =>
    rw [Bool.eq_iff_iff, ← mem_activeTasksOf hw ht, ← any_adds_tasks (w := w)]
    have hops : setupWorkerQueues.enqueues db w worker t task = _ := enqueues_of_runs rfl
    rw [hops]
    rfl
  | userSubmitTask => exact (enqueues_of_runs rfl).trans (hworkers _ [] hnil)
  | workerTriggerPendingTask => exact (enqueues_of_runs rfl).trans (hworkers _ [] hnil)
  | userChangeTask =>
    have hremove : ∀ op ∈ [TaskDispatcherOp.removeTask t], op.adds w t = none := by
      intro op hop
      rw [List.mem_singleton.1 hop]
      rfl
    exact (enqueues_of_runs rfl).trans (hworkers _ [.removeTask t] hremove)
  | removeWorker => exact (enqueues_of_runs rfl).trans (hworkers _ [] hnil)
  | shutdownWorkersByFilter => exact (enqueues_of_runs rfl).trans (hworkers _ [] hnil)
  | shutdownWorkersByUuids => exact (enqueues_of_runs rfl).trans (hworkers _ [] hnil)

theorem no_role_iff : (db.groupWorker.find (g, w)).any (fun role => role ∈ [.write, .admin]) = false ↔
    ∀ role, db.groupWorker.find (g, w) = some role → role = .read := by
  cases db.groupWorker.find (g, w) with
  | none => simp
  | some role => cases role <;> simp

theorem eligible_eq_routes (hw : db.workers.find w = some worker) :
    db.eligible w task.groupId task.tags = db.routes w worker task ↔
      worker.tags ≠ [] ∨ task.tags = [] ∨
        ∀ role, db.groupWorker.find (task.groupId, w) = some role → role = .read := by
  rw [Db.eligible, hw, Option.any_some, Db.routes, ← no_role_iff]
  cases (db.groupWorker.find (task.groupId, w)).any fun role => role ∈ [.write, .admin] with
  | false => simp
  | true =>
    cases worker.tags with
    | cons => simp
    | nil => cases task.tags <;> simp [containsAll]

end EnqueuePath

/-- All paths answer alike, and as the guide says. -/
def Db.Routed (db : Db) (w : WorkerId) (worker : Worker) (t : TaskId) (task : ActiveTask) : Prop :=
  (∀ path path' : EnqueuePath,
    path.enqueues db w worker t task = path'.enqueues db w worker t task) ∧
  ∀ path : EnqueuePath, path.enqueues db w worker t task = db.routes w worker task

namespace EnqueuePath

/-- The paths are parts of the services of their names. A removed worker pushes its task back, and
the shutdowns reassign the tasks of a list. -/
structure Sourced (w : WorkerId) (worker : Worker) : Prop where
  userSubmitTask : ∀ creatorId req, Service.Comes (Service.userSubmitTask creatorId req)
    fun found : TaskId × ActiveTask => userSubmitTask.service w worker found.1 found.2
  workerTriggerPendingTask : ∀ uuid, Service.Comes (Service.workerTriggerPendingTask uuid)
    fun found : TaskId × ActiveTask => workerTriggerPendingTask.service w worker found.1 found.2
  userChangeTask : ∀ userId uuid (req : ChangeTaskReq), (req.tags.isNone && req.timeout.isNone &&
      req.priority.isNone && req.taskSpec.isNone) = false →
    Service.Comes (Service.userChangeTask userId uuid req)
      fun found : TaskId × ActiveTask => userChangeTask.service w worker found.1 found.2
  removeWorker : ∀ w' t,
    Service.Comes (Service.pushBack w' (some t)) (removeWorker.service w worker t)
  shutdown : ∀ path ∈ [shutdownWorkersByFilter, shutdownWorkersByUuids], ∀ t task tasks,
    Service.Comes (Service.reassignTasks ((t, task) :: tasks))
      fun _ : Unit => path.service w worker t task

theorem sourced (w : WorkerId) (worker : Worker) : Sourced w worker where
  userSubmitTask := Service.userSubmitTask_comes
  workerTriggerPendingTask := Service.workerTriggerPendingTask_comes
  userChangeTask userId uuid _ h := Service.userChangeTask_comes userId uuid h
  removeWorker := Service.pushBack_comes
  shutdown path hp t task tasks := by
    rw [List.mem_cons, List.mem_singleton] at hp
    rcases hp with rfl | rfl <;> exact Service.reassignTasks_comes t task tasks

/-- Every path asks for a role above Read and for all tags of the task. So the paths always agree,
and with the guide unless a worker without tags has a role in the group of a task with tags. -/
theorem paths_routed (db : Db) (w : WorkerId) (worker : Worker) (t : TaskId) (task : ActiveTask)
    (hw : db.workers.find w = some worker) (ht : db.activeTasks.find t = some task) :
    Sourced w worker ∧
    (∀ path : EnqueuePath, path.enqueues db w worker t task =
      ((db.groupWorker.find (task.groupId, w)).any (fun role => role ∈ [.write, .admin]) &&
        containsAll worker.tags task.tags)) ∧
    (∀ path path' : EnqueuePath,
      path.enqueues db w worker t task = path'.enqueues db w worker t task) ∧
    (db.Routed w worker t task ↔ worker.tags ≠ [] ∨ task.tags = [] ∨
      ∀ role, db.groupWorker.find (task.groupId, w) = some role → role = .read) := by
  have hagree : ∀ path path' : EnqueuePath,
      path.enqueues db w worker t task = path'.enqueues db w worker t task := by
    intro path path'
    rw [path.enqueues_eq hw ht, path'.enqueues_eq hw ht]
  refine ⟨sourced w worker, ?_, hagree, ?_⟩
  · intro path
    rw [path.enqueues_eq hw ht, Db.eligible, hw, Option.any_some]
  · rw [← eligible_eq_routes hw]
    constructor
    · intro h
      rw [← EnqueuePath.removeWorker.enqueues_eq hw ht]
      exact h.2 .removeWorker
    · intro h
      refine ⟨hagree, ?_⟩
      intro path
      rw [path.enqueues_eq hw ht, h]

namespace Demo

/-- A worker with the role Write in the group of a ready task. -/
def worker (tags : List String) : Worker := ⟨1, 1, tags, [], 0, 0, .normal, 0, none⟩

def ready : ActiveTask := {
  creatorId := 1, groupId := 1, taskId := 1, uuid := 7, tags := ["gpu"], labels := []
  createdAt := 0, updatedAt := 0, state := .ready, assignedWorker := none, timeout := 60
  priority := 0, spec := ⟨[], [], [], false, none⟩, result := none, upstreamTaskUuid := none
  downstreamTaskUuid := none }

def db (tags : List String) : Db where
  users := .empty
  groups := .empty
  userGroup := .empty
  workers := Table.empty.set 1 (worker tags)
  groupWorker := Table.empty.set (1, 1) .write
  activeTasks := Table.empty.set 7 ready
  archivedTasks := .empty
  artifacts := .empty
  workerSeq := 2
  taskSeq := 8

end Demo

/-- A worker with the tag of the task gets it by every path. -/
theorem paths_routed_tagged :
    (Demo.db ["gpu"]).Routed 1 (Demo.worker ["gpu"]) 7 Demo.ready :=
  (paths_routed (Demo.db ["gpu"]) 1 (Demo.worker ["gpu"]) 7 Demo.ready rfl rfl).2.2.2.2
    (.inl (List.cons_ne_nil _ _))

/-- A worker without tags gets no task with tags, by no path. -/
theorem untagged_not_routed : (Demo.db []).workers.find 1 = some (Demo.worker []) ∧
    (Demo.db []).activeTasks.find 7 = some Demo.ready ∧ Demo.ready.state = .ready ∧
    (∀ path : EnqueuePath, path.enqueues (Demo.db []) 1 (Demo.worker []) 7 Demo.ready = false) ∧
    ¬(Demo.db []).Routed 1 (Demo.worker []) 7 Demo.ready := by
  have hno : ∀ path : EnqueuePath,
      path.enqueues (Demo.db []) 1 (Demo.worker []) 7 Demo.ready = false := by
    intro path
    cases path <;> decide
  refine ⟨rfl, rfl, rfl, hno, ?_⟩
  intro h
  have hr := (hno .removeWorker).symm.trans (h.2 .removeWorker)
  revert hr
  decide

end EnqueuePath
end Mitosis
