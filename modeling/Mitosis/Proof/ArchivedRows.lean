import Mitosis.Proof.WorkerRows

namespace Mitosis
set_option autoImplicit true

/-- What a write can do to the row of the archived task `t`. -/
inductive ArchivedChange (db db' : Db) (clock : Instant) (t : TaskId) :
    Write → Option ArchivedTask → Option ArchivedTask → Prop
  | same : ArchivedChange db db' clock t q row row
  | touched : ArchivedChange db db' clock t q (some task) (some { task with updatedAt, labels })
  | committed : db.archiveConflict t archived = false → db'.activeTasks.find t = none →
    ArchivedChange db db' clock t (.commitTask w t archived now) none (some archived)
  | cancelled : db.activeTasks.find t = some task → q.cancelsIn task.state = true →
    db.archiveConflict t (Db.cancelledTask clock task) = false →
    db'.activeTasks.find t = none →
    ArchivedChange db db' clock t q none (some (Db.cancelledTask clock task))

namespace Db
variable {db db' : Db} {t : TaskId} {now : Instant}

theorem archiveConflict_find (h : db.archiveConflict t archived = false) :
    db.archivedTasks.find t = none := by
  simp only [archiveConflict, Bool.or_eq_false_iff, Option.isSome_eq_false_iff,
    Option.isNone_iff_eq_none] at h
  exact h.1

theorem archiveConflict_uuid (h : db.archiveConflict t archived = false)
    (hf : db.archivedTasks.find t' = some task) : task.uuid ≠ archived.uuid := by
  simp only [archiveConflict, Bool.or_eq_false_iff, List.any_eq_false, decide_eq_true_eq,
    not_or] at h
  exact (h.2 _ (Table.mem_rows.2 hf)).1

theorem archived_update {f : ArchivedTask → ArchivedTask}
    (h : ∀ task, ArchivedChange db db' now t q (some task) (some (f task))) (t' : TaskId) :
    ArchivedChange db db' now t q (db.archivedTasks.find t)
      ((db.archivedTasks.update t' f).find t) := by
  rw [Table.find_update]
  split
  next =>
    cases db.archivedTasks.find t with
    | none => exact .same
    | some task => exact h task
  next => exact .same

theorem archived_archive {rows : Table TaskId ActiveTask}
    (h : ∀ t task, rows.find t = some task →
      db.activeTasks.find t = some task ∧ q.cancelsIn task.state = true)
    (ha : archive (rows.mapRows (cancelledTask now)) db = .ok (r, db')) (t : TaskId) :
    ArchivedChange db db' now t q (db.archivedTasks.find t) (db'.archivedTasks.find t) := by
  obtain ⟨hc, rfl⟩ := archive_ok ha
  simp only [Table.find_merge, Table.find_mapRows]
  cases hr : rows.find t with
  | none => exact .same
  | some task =>
    obtain ⟨hf, hs⟩ := h t task hr
    have hm : (t, cancelledTask now task) ∈ (rows.mapRows (cancelledTask now)).rows := by
      rw [Table.mem_rows, Table.find_mapRows, hr]
      rfl
    rw [archiveConflict_find (hc _ hm)]
    refine .cancelled hf hs (hc _ hm) ?_
    simp only [Table.find_deleteWhere, hr, Option.map_some, Option.isSome_some,
      Bool.not_true, hf, Option.filter, Bool.false_eq_true, if_false]

theorem filteredTasks_find (h : (db.filteredTasks filter).find t = some task) :
    db.activeTasks.find t = some task ∧
      (Write.cancelTasksByFilter filter).cancelsIn task.state = true := by
  simp only [filteredTasks, Table.find_select, Option.filter_eq_some_iff, Option.any_eq_true,
    TaskFilter.selects, Bool.and_eq_true] at h
  obtain ⟨hf, _, _, _, _, h⟩ := h
  exact ⟨hf, h.1.1.2⟩

theorem cancellableTasks_find (h : (db.cancellableTasks userId uuids).find t = some task) :
    db.activeTasks.find t = some task ∧
      (Write.cancelTasksByUuids userId uuids).cancelsIn task.state = true := by
  simp only [cancellableTasks, Table.find_select, Option.filter_eq_some_iff,
    decide_eq_true_eq] at h
  exact ⟨h.1, decide_eq_true h.2.2.1⟩

end Db

open Db in
theorem Write.archivedChange {q : Write} {r : q.Ret} (h : q.run clock db = .ok (r, db'))
    (t : TaskId) :
    ArchivedChange db db' clock t q (db.archivedTasks.find t) (db'.archivedTasks.find t) := by
  cases q with
  | insertWorker | deleteWorker | deleteGroupWorkers =>
    obtain ⟨⟩ := h
    exact .same
  | insertGroupWorkers =>
    obtain ⟨_, _, rfl⟩ := insertGroupWorkers_ok h
    exact .same
  | pushBackTask | reportState | setDownstream | triggerTask =>
    obtain ⟨_, _, _, rfl⟩ := updateTask_ok h
    exact .same
  | setGracefulShutdown | touchWorker | replaceWorkerLabels | linkWorker | replaceWorkerTags =>
    obtain ⟨_, _, _, rfl⟩ := updateWorker_ok h
    exact .same
  | assignTask =>
    rcases assignTask_ok h with ⟨-, rfl, -⟩ | ⟨_, _, _, _, _, rfl⟩ <;> exact .same
  | commitTask w t' archived now =>
    obtain ⟨hc, worker, -, -, ⟨-, rfl⟩ | ⟨-, rfl⟩⟩ := commitTask_ok h <;>
    · simp only [withoutWorkers, committed, Table.find_set]
      split
      next ht =>
        subst ht
        rw [archiveConflict_find hc]
        exact .committed hc (Table.find_erase_self _ _)
      next => exact .same
  | addTaskCount =>
    simp only [run, Db.addTaskCount] at h
    split at h <;>
    · obtain ⟨⟩ := h
      exact .same
  | insertTask =>
    obtain ⟨-, -, rfl⟩ := insertTask_ok h
    exact .same
  | changeTask =>
    obtain ⟨_, _, _, _, _, rfl⟩ := changeTask_ok h
    exact .same
  | changeTaskLabels =>
    rcases changeTaskLabels_ok h with ⟨_, rfl⟩ | ⟨_, rfl⟩
    · exact .same
    · exact archived_update (fun _ => .touched) _
  | cancelTask =>
    obtain ⟨task, hf, ⟨-, hs⟩, hc, rfl⟩ := cancelTask_ok h
    simp only [Table.find_set]
    split
    next ht =>
      subst ht
      rw [archiveConflict_find hc]
      exact .cancelled hf (decide_eq_true hs) hc (Table.find_erase_self _ _)
    next => exact .same
  | cancelTasksByFilter =>
    exact archived_archive (fun _ _ => filteredTasks_find) (cancelTasksByFilter_ok h).2 t
  | cancelTasksByUuids =>
    exact archived_archive (fun _ _ => cancellableTasks_find) (cancelTasksByUuids_ok h).2 t
  | uploadArtifact =>
    obtain ⟨_, _, ⟨_, rfl⟩ | ⟨_, rfl⟩⟩ := uploadArtifact_ok h
    · exact .same
    · exact archived_update (fun _ => .touched) _
  | shutdownWorkersByFilter groupId req =>
    simp only [run, Db.shutdownWorkersByFilter] at h
    split at h <;>
    · obtain ⟨⟩ := h
      exact .same
  | shutdownWorkersByUuids userId uuids op =>
    cases op <;>
    · obtain ⟨⟩ := h
      exact .same
  | upsertGroupWorkers =>
    obtain ⟨-, rfl⟩ := upsertGroupWorkers_ok h
    exact .same

namespace Db
variable {db db' : Db} {t : TaskId} {now : Instant}

theorem archives_rows {q : Write} {rows : Table TaskId ActiveTask}
    (h : ∀ t task, rows.find t = some task →
      db.activeTasks.find t = some task ∧ q.cancelsIn task.state = true)
    (ha : archive (rows.mapRows (cancelledTask now)) db = .ok (r, db'))
    (hf : db.activeTasks.find t = some task) (hn : db'.activeTasks.find t = none) :
    db'.archivedTasks.find t = some (cancelledTask now task) ∧ q.cancelsIn task.state = true := by
  obtain ⟨-, rfl⟩ := archive_ok ha
  simp only [Table.find_deleteWhere, Table.find_mapRows, Option.isSome_map, hf] at hn
  cases hr : rows.find t with
  | none => simp [hr] at hn
  | some task' =>
    obtain ⟨hf', hs⟩ := h t task' hr
    obtain rfl := Option.some.inj (hf.symm.trans hf')
    refine ⟨?_, hs⟩
    rw [Table.find_merge, Table.find_mapRows, hr]
    rfl

end Db

open Db in
theorem Write.archives {q : Write} {r : q.Ret} (h : q.run clock db = .ok (r, db'))
    (hf : db.activeTasks.find t = some task) (hn : db'.activeTasks.find t = none) :
    (db'.archivedTasks.find t = some (cancelledTask clock task) ∧
        q.cancelsIn task.state = true) ∨
      ∃ w archived now, q = .commitTask w t archived now ∧
        db'.archivedTasks.find t = some archived := by
  have hc := q.taskChange h t
  rw [hf, hn] at hc
  cases hc with
  | committed =>
    refine .inr ⟨_, _, _, rfl, ?_⟩
    obtain ⟨-, _, -, -, ⟨-, rfl⟩ | ⟨-, rfl⟩⟩ := commitTask_ok h <;>
    exact Table.find_set_self _ _ _
  | cancelled hs =>
    refine .inl ?_
    cases q with
    | cancelTask =>
      obtain ⟨task', hf', ⟨-, hs'⟩, -, rfl⟩ := cancelTask_ok h
      by_cases ht : t = r
      · subst ht
        obtain rfl := Option.some.inj (hf.symm.trans hf')
        exact ⟨Table.find_set_self _ _ _, hs⟩
      · rw [Table.find_erase_ne _ ht, hf] at hn
        cases hn
    | cancelTasksByFilter =>
      exact archives_rows (fun _ _ => filteredTasks_find) (cancelTasksByFilter_ok h).2 hf hn
    | cancelTasksByUuids =>
      exact archives_rows (fun _ _ => cancellableTasks_find) (cancelTasksByUuids_ok h).2 hf hn
    | _ => cases hs

end Mitosis
