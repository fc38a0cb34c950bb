import Mitosis.Query

namespace Mitosis
set_option autoImplicit true

def Write.cancelsIn : Write → TaskState → Bool
  | .cancelTask _ _, st => st = .ready
  | .cancelTasksByFilter filter, st => filter.states.all fun states => decide (st ∈ states)
  | .cancelTasksByUuids _ _, st => st ∈ [.ready, .pending]
  | _, _ => false

/-- What a write can do to the row of the active task `t`. -/
inductive TaskChange (db : Db) (clock : Instant) (t : TaskId) :
    Write → Option ActiveTask → Option ActiveTask → Prop
  | same : TaskChange db clock t q row row
  | inserted : t = db.taskSeq → TaskChange db clock t (.insertTask task) row (some task)
  | assigned : task.assignedWorker = none → task.state = .ready →
    TaskChange db clock t (.assignTask w t now) (some task)
      (some { task with assignedWorker := some w, updatedAt := now, state := .running })
  | reported : TaskChange db clock t (.reportState w t state now) (some task)
      (some { task with state, updatedAt := now })
  | pushedBack : TaskChange db clock t (.pushBackTask w t now) (some task)
      (some (Db.pushedBack now task))
  | shutByFilter : req.op = .force → task.assignedWorker = some w →
    db.workers.find w = some worker → db.shutdownSelects groupId req w worker = true →
    TaskChange db clock t (.shutdownWorkersByFilter groupId req) (some task)
      (some (Db.pushedBack clock task))
  | shutByUuids : (w, worker) ∈ db.administeredWorkers userId uuids →
    worker.assignedTaskId = some t →
    TaskChange db clock t (.shutdownWorkersByUuids userId uuids .force) (some task)
      (some (Db.pushedBack clock task))
  | linked : TaskChange db clock t (.setDownstream w t uuid now) (some task)
      (some { task with updatedAt := now, downstreamTaskUuid := some uuid })
  | triggered : TaskChange db clock t (.triggerTask t now) (some task)
      (some { task with state := .ready, updatedAt := now })
  | changed : task.state = .ready → task.uuid = uuid →
    TaskChange db clock t (.changeTask userId uuid req) (some task)
      (some (Db.changedTask req clock task))
  | touched : TaskChange db clock t q (some task) (some { task with updatedAt, labels })
  | committed : TaskChange db clock t (.commitTask w t archived now) row none
  | cancelled : q.cancelsIn task.state = true → TaskChange db clock t q (some task) none

namespace Db

variable {db db' : Db} {t : TaskId} {w : WorkerId} {now : Instant}

theorem updateTask_ok (h : updateTask t f db = .ok (r, db')) :
    ∃ task, db.activeTasks.find t = some task ∧ r = f task ∧
      db' = { db with activeTasks := db.activeTasks.update t f } := by
  rw [updateTask] at h
  split at h
  next => cases h
  next task hf =>
    obtain ⟨⟩ := h
    exact ⟨task, hf, rfl, rfl⟩

theorem updateArchivedTask_ok (h : updateArchivedTask t f db = .ok (r, db')) :
    ∃ task, db.archivedTasks.find t = some task ∧ r = f task ∧
      db' = { db with archivedTasks := db.archivedTasks.update t f } := by
  rw [updateArchivedTask] at h
  split at h
  next => cases h
  next task hf =>
    obtain ⟨⟩ := h
    exact ⟨task, hf, rfl, rfl⟩

theorem updateWorker_ok (h : updateWorker w f db = .ok (r, db')) :
    ∃ worker, db.workers.find w = some worker ∧ r = f worker ∧
      db' = { db with workers := db.workers.update w f } := by
  rw [updateWorker] at h
  split at h
  next => cases h
  next worker hf =>
    obtain ⟨⟩ := h
    exact ⟨worker, hf, rfl, rfl⟩

theorem archive_ok (h : archive tasks db = .ok (r, db')) :
    (∀ e ∈ tasks.rows, db.archiveConflict e.1 e.2 = false) ∧ db' = { db with
      archivedTasks := db.archivedTasks.merge tasks
      activeTasks := db.activeTasks.deleteWhere fun id _ => (tasks.find id).isSome } := by
  rw [archive] at h
  split at h
  next => cases h
  next hc =>
    obtain ⟨⟩ := h
    simp only [List.any_eq_true, not_exists, not_and, Bool.not_eq_true] at hc
    exact ⟨hc, rfl⟩

/-- The select and the update of a row commit in one transaction. -/
theorem bind_ok {x : Except Error α} {f : α → Except Error β} (h : x >>= f = .ok b) :
    ∃ a, x = .ok a ∧ f a = .ok b := by
  cases x with
  | error e => cases h
  | ok a => exact ⟨a, rfl, h⟩

theorem changeTask_ok (h : changeTask userId uuid req now db = .ok (r, db')) :
    ∃ task, db.activeTasks.find r.1 = some task ∧ task.state = .ready ∧ task.uuid = uuid ∧
      r.2 = changedTask req now task ∧
      db' = { db with activeTasks := db.activeTasks.update r.1 (changedTask req now) } := by
  rw [changeTask] at h
  split at h
  next => cases h
  next id task hf =>
    obtain ⟨hfind, hp⟩ := Table.findWhere_some hf
    simp only [decide_eq_true_eq] at hp
    obtain ⟨_, _, h⟩ := bind_ok h
    obtain ⟨_, _, h⟩ := bind_ok h
    obtain ⟨⟨row, db₁⟩, hu, h⟩ := bind_ok h
    obtain ⟨task', hf', hrow, rfl⟩ := updateTask_ok hu
    obtain ⟨⟩ := h
    obtain rfl := Option.some.inj (hfind.symm.trans hf')
    exact ⟨task, hfind, hp.2, hp.1, hrow, rfl⟩

theorem changeTaskLabels_ok
    (h : changeTaskLabels userId uuid labels now db = .ok (r, db')) :
    (∃ id, db' = { db with activeTasks := db.activeTasks.update id fun task =>
      { task with updatedAt := now, labels } }) ∨
    ∃ id, db' = { db with archivedTasks := db.archivedTasks.update id fun task =>
      { task with updatedAt := now, labels } } := by
  rw [changeTaskLabels] at h
  split at h
  next id task _ =>
    obtain ⟨_, _, h⟩ := bind_ok h
    obtain ⟨⟨row, db₁⟩, hu, h⟩ := bind_ok h
    obtain ⟨_, _, _, rfl⟩ := updateTask_ok hu
    obtain ⟨⟩ := h
    exact .inl ⟨id, rfl⟩
  next =>
    split at h
    next => cases h
    next id task _ =>
      obtain ⟨_, _, h⟩ := bind_ok h
      obtain ⟨⟨row, db₁⟩, hu, h⟩ := bind_ok h
      obtain ⟨_, _, _, rfl⟩ := updateArchivedTask_ok hu
      obtain ⟨⟩ := h
      exact .inr ⟨id, rfl⟩

theorem cancelTask_ok (h : cancelTask userId uuid now db = .ok (r, db')) :
    ∃ task, db.activeTasks.find r = some task ∧ (task.uuid = uuid ∧ task.state = .ready) ∧
      db.archiveConflict r (cancelledTask now task) = false ∧
      db' = { db with
        archivedTasks := db.archivedTasks.set r (cancelledTask now task)
        activeTasks := db.activeTasks.erase r } := by
  rw [cancelTask] at h
  split at h
  next => cases h
  next id task hf =>
    obtain ⟨hfind, hp⟩ := Table.findWhere_some hf
    simp only [decide_eq_true_eq] at hp
    obtain ⟨_, _, h⟩ := bind_ok h
    obtain ⟨⟨row, db₁⟩, hu, h⟩ := bind_ok h
    obtain ⟨hc, rfl⟩ := archive_ok hu
    obtain ⟨⟩ := h
    refine ⟨task, hfind, hp, hc _ (List.mem_singleton_self _), ?_⟩
    congr 2
    funext k _
    rw [Table.find_set]
    split <;> simp [*]

theorem cancelTasksByFilter_ok
    (h : cancelTasksByFilter filter now db = .ok (r, db')) :
    r = (db.filteredTasks filter).keys ∧
      archive ((db.filteredTasks filter).mapRows (cancelledTask now)) db = .ok ((), db') := by
  obtain ⟨⟨⟨⟩, db₁⟩, hu, h⟩ := bind_ok h
  obtain ⟨⟩ := h
  exact ⟨rfl, hu⟩

theorem cancelTasksByUuids_ok
    (h : cancelTasksByUuids userId uuids now db = .ok (r, db')) :
    r = (db.cancellableTasks userId uuids).rows.map (fun e => (e.1, e.2.uuid)) ∧
      archive ((db.cancellableTasks userId uuids).mapRows (cancelledTask now)) db =
        .ok ((), db') := by
  obtain ⟨⟨⟨⟩, db₁⟩, hu, h⟩ := bind_ok h
  obtain ⟨⟩ := h
  exact ⟨rfl, hu⟩

theorem storeArtifact_ok (h : storeArtifact task group contentType length now db = .ok (r, db')) :
    ∃ artifacts groups, db' = { db with artifacts, groups } := by
  rw [storeArtifact] at h
  split at h
  next => cases h
  next =>
    obtain ⟨_, _, h⟩ := bind_ok h
    split at h
    next => cases h
    next =>
      obtain ⟨⟩ := h
      exact ⟨_, _, rfl⟩

theorem map_ok {x : Except Error α} {f : α → β} (h : f <$> x = .ok b) :
    ∃ a, x = .ok a ∧ f a = b := by
  cases x with
  | error e => cases h
  | ok a => exact ⟨a, rfl, Except.ok.inj h⟩

/-- The upload changes the tables of tasks only in a timestamp. -/
theorem uploadArtifact_ok
    (h : uploadArtifact task group contentType length now db = .ok (r, db')) :
    ∃ artifacts groups, (∃ id, db' = { db with
        activeTasks := db.activeTasks.update id fun task => { task with updatedAt := now }
        artifacts, groups }) ∨
      ∃ id, db' = { db with
        archivedTasks := db.archivedTasks.update id fun task => { task with updatedAt := now }
        artifacts, groups } := by
  obtain ⟨db₁, ht, hs⟩ := bind_ok h
  obtain ⟨artifacts, groups, rfl⟩ := storeArtifact_ok hs
  cases task with
  | active id task =>
    obtain ⟨⟨row, db₁⟩, hu, rfl⟩ := map_ok ht
    obtain ⟨_, _, _, rfl⟩ := updateTask_ok hu
    exact ⟨artifacts, groups, .inl ⟨id, rfl⟩⟩
  | archived id task =>
    obtain ⟨⟨row, db₁⟩, hu, rfl⟩ := map_ok ht
    obtain ⟨_, _, _, rfl⟩ := updateArchivedTask_ok hu
    exact ⟨artifacts, groups, .inr ⟨id, rfl⟩⟩

theorem insertTask_ok (h : insertTask task db = .ok (r, db')) :
    (∀ e ∈ db.activeTasks.rows, e.2.uuid ≠ task.uuid) ∧ r = (db.taskSeq, task) ∧
      db' = { db with
        activeTasks := db.activeTasks.set db.taskSeq task
        taskSeq := db.taskSeq + 1 } := by
  rw [insertTask] at h
  split at h
  next => cases h
  next hc =>
    obtain ⟨⟩ := h
    refine ⟨fun e he hu => hc ?_, rfl, rfl⟩
    exact List.any_eq_true.2 ⟨e, he, decide_eq_true (.inl hu)⟩

theorem assignTask_ok (h : assignTask w t now db = .ok (r, db')) :
    (r = none ∧ db' = db ∧ ∀ task, db.activeTasks.find t = some task →
        ¬(task.assignedWorker = none ∧ task.state = .ready)) ∨
    ∃ task, db.activeTasks.find t = some task ∧ task.assignedWorker = none ∧
      task.state = .ready ∧
      r = some { task with assignedWorker := some w, updatedAt := now, state := .running } ∧
      db' = { db with activeTasks := db.activeTasks.update t fun task =>
        { task with assignedWorker := some w, updatedAt := now, state := .running } } := by
  rw [assignTask] at h
  split at h
  next hf =>
    obtain ⟨⟩ := h
    refine .inl ⟨rfl, rfl, fun task ht => ?_⟩
    rw [hf] at ht
    cases ht
  next task hf =>
    split at h
    next hc =>
      obtain ⟨⟩ := h
      exact .inr ⟨task, hf, hc.1, hc.2, rfl, rfl⟩
    next hc =>
      obtain ⟨⟩ := h
      refine .inl ⟨rfl, rfl, fun task' ht => ?_⟩
      obtain rfl := Option.some.inj (hf.symm.trans ht)
      exact hc

theorem findWorkerByUuid_some (h : db.findWorkerByUuid uuid = some row) :
    db.workers.find row.1 = some row.2 ∧ row.2.workerId = uuid := by
  obtain ⟨hf, hp⟩ := Table.findWhere_some h
  exact ⟨hf, of_decide_eq_true hp⟩

theorem findPendingTask_some (h : db.findPendingTask uuid = some row) :
    db.activeTasks.find row.1 = some row.2 ∧ row.2.uuid = uuid ∧ row.2.state = .pending := by
  obtain ⟨hf, hp⟩ := Table.findWhere_some h
  exact ⟨hf, of_decide_eq_true hp⟩

theorem administeredWorkers_find (h : (w, worker) ∈ db.administeredWorkers userId uuids) :
    db.workers.find w = some worker := by
  obtain ⟨x, _, hx⟩ := List.mem_filterMap.1 h
  split at hx
  next =>
    obtain ⟨worker', hf, hw⟩ := Option.bind_eq_some_iff.1 hx
    split at hw
    next =>
      obtain ⟨⟩ := hw
      exact hf
    next => cases hw
  next => cases hx

/-- The database after the first three statements of a commit. -/
def committed (db : Db) (w : WorkerId) (t : TaskId) (archived : ArchivedTask)
    (now : Instant) : Db :=
  { db with
    archivedTasks := db.archivedTasks.set t archived
    activeTasks := db.activeTasks.erase t
    workers := db.workers.update w fun w => { w with updatedAt := now, assignedTaskId := none } }

theorem commitTask_ok (h : commitTask w t archived now db = .ok (r, db')) :
    db.archiveConflict t archived = false ∧ ∃ worker, db.workers.find w = some worker ∧
      r = worker.state ∧
      (worker.state = .normal ∧ db' = db.committed w t archived now ∨
        worker.state = .gracefulShutdown ∧
          db' = (db.committed w t archived now).withoutWorkers fun id => id = w) := by
  rw [commitTask] at h
  split at h
  next => cases h
  next hc =>
    split at h
    next => cases h
    next worker hf =>
      refine ⟨Bool.eq_false_iff.2 hc, worker, hf, ?_⟩
      simp only at h
      split at h
      next hs =>
        obtain ⟨⟩ := h
        exact ⟨rfl, .inr ⟨hs, rfl⟩⟩
      next hs =>
        obtain ⟨⟩ := h
        exact ⟨rfl, .inl ⟨hs, rfl⟩⟩

theorem change_update {f : ActiveTask → ActiveTask}
    (h : ∀ task, db.activeTasks.find t = some task →
      TaskChange db now t q (some task) (some (f task))) (t' : TaskId) :
    TaskChange db now t' q (db.activeTasks.find t') ((db.activeTasks.update t f).find t') := by
  rw [Table.find_update]
  split
  next ht =>
    subst ht
    cases hf : db.activeTasks.find t' with
    | none => exact .same
    | some task => exact h task hf
  next => exact .same

theorem change_archive {rows : Table TaskId ActiveTask}
    (h : ∀ t task, rows.find t = some task →
      db.activeTasks.find t = some task ∧ q.cancelsIn task.state = true)
    (ha : archive (rows.mapRows (cancelledTask now)) db = .ok (r, db')) (t : TaskId) :
    TaskChange db now t q (db.activeTasks.find t) (db'.activeTasks.find t) := by
  obtain ⟨-, rfl⟩ := archive_ok ha
  simp only [Table.find_deleteWhere, Table.find_mapRows, Option.isSome_map]
  cases hr : rows.find t with
  | none =>
    cases db.activeTasks.find t <;> exact .same
  | some task =>
    obtain ⟨hf, hs⟩ := h t task hr
    rw [hf]
    exact .cancelled hs

end Db

open Db in
theorem Write.taskChange {q : Write} {r : q.Ret} (h : q.run clock db = .ok (r, db')) (t : TaskId) :
    TaskChange db clock t q (db.activeTasks.find t) (db'.activeTasks.find t) := by
  cases q with
  | insertWorker | deleteWorker | deleteGroupWorkers =>
    obtain ⟨⟩ := h
    exact .same
  | insertGroupWorkers =>
    simp only [run, Db.insertGroupWorkers] at h
    split at h
    next => cases h
    next =>
      obtain ⟨⟩ := h
      exact .same
  | pushBackTask w t now =>
    obtain ⟨_, _, _, rfl⟩ := updateTask_ok h
    exact change_update (fun _ _ => .pushedBack) _
  | setGracefulShutdown | touchWorker | linkWorker | replaceWorkerTags | replaceWorkerLabels =>
    obtain ⟨_, _, _, rfl⟩ := updateWorker_ok h
    exact .same
  | assignTask w t now =>
    rcases assignTask_ok h with ⟨-, rfl, -⟩ | ⟨task, hf, hn, hs, -, rfl⟩
    · exact .same
    · refine change_update (fun task' hf' => ?_) _
      obtain rfl := Option.some.inj (hf.symm.trans hf')
      exact .assigned hn hs
  | reportState w t state now =>
    obtain ⟨_, _, _, rfl⟩ := updateTask_ok h
    exact change_update (fun _ _ => .reported) _
  | setDownstream w t uuid now =>
    obtain ⟨_, _, _, rfl⟩ := updateTask_ok h
    exact change_update (fun _ _ => .linked) _
  | commitTask w t' archived now =>
    obtain ⟨-, worker, -, -, ⟨-, rfl⟩ | ⟨-, rfl⟩⟩ := commitTask_ok h <;>
    · change TaskChange db clock t _ _ ((db.activeTasks.erase t').find t)
      rw [Table.find_erase]
      split
      next ht =>
        subst ht
        exact .committed
      next => exact .same
  | addTaskCount =>
    simp only [run, Db.addTaskCount] at h
    split at h <;>
    · obtain ⟨⟩ := h
      exact .same
  | insertTask task =>
    obtain ⟨-, -, rfl⟩ := insertTask_ok h
    simp only [Table.find_set]
    split
    next ht => exact .inserted ht
    next => exact .same
  | triggerTask t now =>
    obtain ⟨_, _, _, rfl⟩ := updateTask_ok h
    exact change_update (fun _ _ => .triggered) _
  | changeTask userId uuid req =>
    obtain ⟨task, hf, hs, hu, -, rfl⟩ := changeTask_ok h
    refine change_update (fun task' hf' => ?_) _
    obtain rfl := Option.some.inj (hf.symm.trans hf')
    exact .changed hs hu
  | changeTaskLabels =>
    rcases changeTaskLabels_ok h with ⟨_, rfl⟩ | ⟨_, rfl⟩
    · exact change_update (fun _ _ => .touched) _
    · exact .same
  | cancelTask userId uuid =>
    obtain ⟨task, hf, ⟨-, hs⟩, -, rfl⟩ := cancelTask_ok h
    simp only [Table.find_erase]
    split
    next ht =>
      subst ht
      rw [hf]
      exact .cancelled (decide_eq_true hs)
    next => exact .same
  | cancelTasksByFilter filter =>
    refine change_archive (fun t task hf => ?_) (cancelTasksByFilter_ok h).2 t
    simp only [filteredTasks, Table.find_select, Option.filter_eq_some_iff, Option.any_eq_true,
      TaskFilter.selects, Bool.and_eq_true] at hf
    obtain ⟨hf, _, _, _, _, h⟩ := hf
    exact ⟨hf, h.1.1.2⟩
  | cancelTasksByUuids userId uuids =>
    refine change_archive (fun t task hf => ?_) (cancelTasksByUuids_ok h).2 t
    simp only [cancellableTasks, Table.find_select, Option.filter_eq_some_iff,
      decide_eq_true_eq] at hf
    exact ⟨hf.1, decide_eq_true hf.2.2.1⟩
  | uploadArtifact =>
    obtain ⟨_, _, ⟨_, rfl⟩ | ⟨_, rfl⟩⟩ := uploadArtifact_ok h
    · exact change_update (fun _ _ => .touched) _
    · exact .same
  | shutdownWorkersByFilter groupId req =>
    simp only [run, Db.shutdownWorkersByFilter] at h
    split at h
    next hop =>
      obtain ⟨⟩ := h
      simp only [withoutWorkers, Table.find_updateWhere]
      cases hf : db.activeTasks.find t with
      | none => exact .same
      | some task =>
        simp only [Option.map_some]
        split
        next ha =>
          obtain ⟨w, hw, hs⟩ := (Option.any_eq_true _ _).1 ha
          obtain ⟨worker, hs⟩ := Option.isSome_iff_exists.1 hs
          rw [Table.find_select, Option.filter_eq_some_iff] at hs
          exact .shutByFilter hop hw hs.1 hs.2
        next => exact .same
    next =>
      obtain ⟨⟩ := h
      exact .same
  | shutdownWorkersByUuids userId uuids op =>
    cases op with
    | force =>
      obtain ⟨⟩ := h
      simp only [withoutWorkers, Table.find_updateWhere]
      cases hf : db.activeTasks.find t with
      | none => exact .same
      | some task =>
        simp only [Option.map_some]
        split
        next ha =>
          obtain ⟨⟨w, worker⟩, hm, ht⟩ := List.mem_filterMap.1 (of_decide_eq_true ha)
          exact .shutByUuids hm ht
        next => exact .same
    | graceful =>
      obtain ⟨⟩ := h
      exact .same
  | upsertGroupWorkers =>
    simp only [run, Db.upsertGroupWorkers] at h
    split at h
    next => cases h
    next =>
      obtain ⟨⟩ := h
      exact .same

namespace Db
variable {db db' : Db} {t : TaskId} {w : WorkerId} {now : Instant}

theorem reassigned_filter (hop : req.op = .force)
    (hf : db.activeTasks.find t = some task) (ha : task.assignedWorker = some w)
    (hw : db.workers.find w = some worker)
    (hs : db.shutdownSelects groupId req w worker = true)
    (h : shutdownWorkersByFilter groupId req now db = .ok (res, db')) :
    (t, pushedBack now task) ∈ res.tasksToReassign := by
  simp only [shutdownWorkersByFilter, hop] at h
  obtain ⟨⟩ := h
  rw [Table.mem_rows, Table.find_mapRows, Table.find_select, hf]
  simp only [Option.filter, ha, Option.any_some, Table.find_select, hw, hs, if_true,
    Option.isSome_some, Option.map_some]

theorem reassigned_uuids (hf : db.activeTasks.find t = some task)
    (hm : (w, worker) ∈ db.administeredWorkers userId uuids)
    (ha : worker.assignedTaskId = some t)
    (h : shutdownWorkersByUuids userId uuids .force now db = .ok (res, db')) :
    (t, pushedBack now task) ∈ res.1.tasksToReassign := by
  obtain ⟨⟩ := h
  rw [Table.mem_rows, Table.find_mapRows, Table.find_select, hf]
  have ht : t ∈ (db.administeredWorkers userId uuids).filterMap fun e => e.2.assignedTaskId :=
    List.mem_filterMap.2 ⟨_, hm, ha⟩
  simp only [Option.filter, ht, decide_true, if_true, Option.map_some]

theorem reset_filter (hop : req.op = .force)
    (hf : db.activeTasks.find t = some task) (ha : task.assignedWorker = some w)
    (hw : db.workers.find w = some worker)
    (hs : db.shutdownSelects groupId req w worker = true)
    (h : shutdownWorkersByFilter groupId req now db = .ok (res, db')) :
    db'.activeTasks.find t = some (pushedBack now task) := by
  simp only [shutdownWorkersByFilter, hop] at h
  obtain ⟨⟩ := h
  simp only [withoutWorkers, Table.find_updateWhere, hf, Option.map_some, ha, Option.any_some,
    Table.find_select, hw, Option.filter, hs, if_true, Option.isSome_some]

theorem reset_uuids (hf : db.activeTasks.find t = some task)
    (ht : t ∈ (db.administeredWorkers userId uuids).filterMap fun e => e.2.assignedTaskId)
    (h : shutdownWorkersByUuids userId uuids .force now db = .ok (res, db')) :
    db'.activeTasks.find t = some (pushedBack now task) := by
  obtain ⟨⟩ := h
  simp only [withoutWorkers, Table.find_updateWhere, hf, Option.map_some, ht, decide_true,
    if_true]

theorem updateTask_run (hf : db.activeTasks.find t = some task) (f : ActiveTask → ActiveTask) :
    updateTask t f db = .ok (f task, { db with activeTasks := db.activeTasks.update t f }) := by
  simp only [updateTask, hf]

theorem updateWorker_run (hw : db.workers.find w = some worker) (f : Worker → Worker) :
    updateWorker w f db = .ok (f worker, { db with workers := db.workers.update w f }) := by
  simp only [updateWorker, hw]

theorem commitTask_run (hc : db.archiveConflict t archived = false)
    (hw : db.workers.find w = some worker) (now : Instant) :
    ∃ r db', commitTask w t archived now db = .ok (r, db') := by
  cases hs : worker.state <;>
  simp only [commitTask, hc, hw, hs, Bool.false_eq_true, if_false, Except.ok.injEq,
    Prod.mk.injEq, exists_and_left, exists_eq', and_true]

theorem update_row (hf : db.activeTasks.find t = some task) (f : ActiveTask → ActiveTask) :
    (db.activeTasks.update t f).find t = some (f task) := by
  simp only [Table.find_update_self, hf, Option.map_some]

theorem commitTask_active (h : commitTask w t archived now db = .ok (r, db')) :
    db'.activeTasks.find t = none := by
  obtain ⟨-, _, -, -, ⟨-, rfl⟩ | ⟨-, rfl⟩⟩ := commitTask_ok h <;>
  exact Table.find_erase_self _ _

end Db
end Mitosis
