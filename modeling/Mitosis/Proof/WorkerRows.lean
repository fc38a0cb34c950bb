import Mitosis.Proof.TaskRows

namespace Mitosis
set_option autoImplicit true

def Write.removes (db : Db) (w : WorkerId) (worker : Worker) : Write → Prop
  | .deleteWorker id => id = w
  | .commitTask id _ _ _ => id = w ∧ worker.state = .gracefulShutdown
  | .shutdownWorkersByFilter groupId req =>
    db.shutdownSelects groupId req w worker = true ∧
      (req.op = .graceful → worker.assignedTaskId = none)
  | .shutdownWorkersByUuids userId uuids op =>
    (w, worker) ∈ db.administeredWorkers userId uuids ∧
      (op = .graceful → worker.assignedTaskId = none)
  | _ => False

/-- What a write can do to the row of the worker `w`. -/
inductive WorkerChange (db : Db) (w : WorkerId) : Write → Option Worker → Option Worker → Prop
  | same : WorkerChange db w q row row
  | inserted : w = db.workerSeq → WorkerChange db w
      (.insertWorker workerId creatorId tags labels now) row (some {
        workerId, creatorId, tags, labels
        createdAt := now
        updatedAt := now
        state := .normal
        lastHeartbeat := now
        assignedTaskId := none })
  | linked : WorkerChange db w (.linkWorker w t now) (some worker)
      (some { worker with updatedAt := now, assignedTaskId := some t })
  | committed : worker.state = .normal →
    WorkerChange db w (.commitTask w t archived now) (some worker)
      (some { worker with updatedAt := now, assignedTaskId := none })
  | retagged : WorkerChange db w (.replaceWorkerTags w tags now) (some worker)
      (some { worker with tags, updatedAt := now })
  | kept : WorkerChange db w q (some worker)
      (some { worker with labels, updatedAt, state, lastHeartbeat })
  | removed : q.removes db w worker → WorkerChange db w q (some worker) none

/-- What a write can do to the role of the worker `w` in the group `g`. -/
inductive RoleChange (db db' : Db) (g : GroupId) (w : WorkerId) :
    Write → Option GroupWorkerRole → Option GroupWorkerRole → Prop
  | same : RoleChange db db' g w q role role
  | inserted : (db.workers.find w).isSome = true →
    RoleChange db db' g w (.insertGroupWorkers roles w) none (some role)
  | upserted : (db.workers.find w).isSome = true → (g, role) ∈ relations →
    RoleChange db db' g w (.upsertGroupWorkers w relations) row (some role)
  | deleted : g ∈ groups → RoleChange db db' g w (.deleteGroupWorkers w groups) row none
  | removed : db'.workers.find w = none → RoleChange db db' g w q row none

namespace Db
variable {db db' : Db} {w : WorkerId} {now : Instant}

theorem worker_update {f : Worker → Worker}
    (h : ∀ worker, db.workers.find w = some worker →
      WorkerChange db w q (some worker) (some (f worker))) (w' : WorkerId) :
    WorkerChange db w' q (db.workers.find w') ((db.workers.update w f).find w') := by
  rw [Table.find_update]
  split
  next hw =>
    subst hw
    cases hf : db.workers.find w' with
    | none => exact .same
    | some worker => exact h worker hf
  next => exact .same

theorem worker_without {p : WorkerId → Bool}
    (h : ∀ worker, db.workers.find w = some worker → p w = true → q.removes db w worker) :
    WorkerChange db w q (db.workers.find w) ((db.withoutWorkers p).workers.find w) := by
  simp only [withoutWorkers, Table.find_deleteWhere]
  cases hf : db.workers.find w with
  | none => exact .same
  | some worker =>
    cases hp : p w with
    | false =>
      simp only [Option.filter, Bool.not_false, if_true]
      exact .same
    | true =>
      simp only [Option.filter, Bool.not_true, Bool.false_eq_true, if_false]
      exact .removed (h worker hf hp)

/-- Workers of two disjoint selections are deleted and put into graceful shutdown. -/
theorem worker_graceful {p r : WorkerId → Bool}
    (h : ∀ worker, db.workers.find w = some worker → p w = true → q.removes db w worker) :
    WorkerChange db w q (db.workers.find w) (((db.withoutWorkers p).workers.updateWhere
      (fun id _ => r id) fun w =>
        { w with state := .gracefulShutdown, updatedAt := now }).find w) := by
  simp only [Table.find_updateWhere, withoutWorkers, Table.find_deleteWhere]
  cases hf : db.workers.find w with
  | none => exact .same
  | some worker =>
    cases hp : p w with
    | true =>
      simp only [Option.filter, Bool.not_true, Bool.false_eq_true, if_false]
      exact .removed (h worker hf hp)
    | false =>
      simp only [Option.filter, Bool.not_false, if_true, Option.map_some]
      cases hr : r w with
      | false =>
        simp only [Bool.false_eq_true, if_false]
        exact .same
      | true =>
        simp only [if_true]
        exact .kept

theorem insertGroupWorkers_ok (h : insertGroupWorkers roles w db = .ok (r, db')) :
    (db.workers.find w).isSome = true ∧
      (∀ e ∈ db.groupRoles roles w, db.groupWorker.find e.1 = none) ∧
      db' = { db with groupWorker :=
        (db.groupRoles roles w).foldl (fun t e => t.set e.1 e.2) db.groupWorker } := by
  simp only [insertGroupWorkers] at h
  split at h
  next => cases h
  next hc =>
    obtain ⟨⟩ := h
    simp only [not_or, List.any_eq_true, not_exists, not_and, Bool.not_eq_true,
      Option.isSome_eq_false_iff, Option.isNone_iff_eq_none] at hc
    exact ⟨Option.isSome_iff_ne_none.2 hc.1, hc.2, rfl⟩

theorem upsertGroupWorkers_ok (h : upsertGroupWorkers w relations db = .ok (r, db')) :
    (db.workers.find w).isSome = true ∧ db' = { db with
      groupWorker := relations.foldl (fun t e => t.set (e.1, w) e.2) db.groupWorker } := by
  rw [upsertGroupWorkers] at h
  split at h
  next => cases h
  next hc =>
    obtain ⟨⟩ := h
    exact ⟨Option.isSome_iff_ne_none.2 hc, rfl⟩

theorem groupRoles_worker (h : e ∈ db.groupRoles roles w) : e.1.2 = w := by
  obtain ⟨_, _, h⟩ := List.mem_filterMap.1 h
  obtain ⟨_, _, rfl⟩ := Option.map_eq_some_iff.1 h
  rfl

end Db

/-- Rows written one after the other: the last one for the key, else the old row. -/
theorem Table.find_foldl_set [DecidableEq κ] (l : List (κ × ρ)) (t : Table κ ρ) (k : κ) :
    (∃ e ∈ l, e.1 = k ∧ (l.foldl (fun t e => t.set e.1 e.2) t).find k = some e.2) ∨
      (∀ e ∈ l, e.1 ≠ k) ∧ (l.foldl (fun t e => t.set e.1 e.2) t).find k = t.find k := by
  induction l generalizing t with
  | nil => exact .inr ⟨fun _ h => absurd h List.not_mem_nil, rfl⟩
  | cons x l ih =>
    rw [List.foldl_cons]
    rcases ih (t.set x.1 x.2) with ⟨e, he, hk, hf⟩ | ⟨hn, hf⟩
    · exact .inl ⟨e, List.mem_cons_of_mem _ he, hk, hf⟩
    · by_cases hx : x.1 = k
      · refine .inl ⟨x, List.mem_cons_self, hx, ?_⟩
        rw [hf, ← hx, Table.find_set_self]
      · refine .inr ⟨fun e he => ?_, ?_⟩
        · rcases List.mem_cons.1 he with rfl | he
          · exact hx
          · exact hn e he
        · rw [hf, Table.find_set_ne _ _ (Ne.symm hx)]

open Db in
theorem Write.workerChange {q : Write} {r : q.Ret} (h : q.run clock db = .ok (r, db'))
    (w : WorkerId) : WorkerChange db w q (db.workers.find w) (db'.workers.find w) := by
  cases q with
  | insertWorker =>
    obtain ⟨⟩ := h
    simp only [Table.find_set]
    split
    next hw => exact .inserted hw
    next => exact .same
  | insertGroupWorkers =>
    obtain ⟨_, _, rfl⟩ := insertGroupWorkers_ok h
    exact .same
  | pushBackTask | reportState | setDownstream | triggerTask =>
    obtain ⟨_, _, _, rfl⟩ := updateTask_ok h
    exact .same
  | deleteWorker id =>
    obtain ⟨⟩ := h
    exact worker_without fun _ _ hp => (of_decide_eq_true hp).symm
  | setGracefulShutdown | touchWorker | replaceWorkerLabels =>
    obtain ⟨_, _, _, rfl⟩ := updateWorker_ok h
    exact worker_update (fun _ _ => .kept) _
  | linkWorker =>
    obtain ⟨_, _, _, rfl⟩ := updateWorker_ok h
    exact worker_update (fun _ _ => .linked) _
  | replaceWorkerTags =>
    obtain ⟨_, _, _, rfl⟩ := updateWorker_ok h
    exact worker_update (fun _ _ => .retagged) _
  | assignTask =>
    rcases assignTask_ok h with ⟨-, rfl, -⟩ | ⟨_, _, _, _, _, rfl⟩ <;> exact .same
  | commitTask w' t archived now =>
    obtain ⟨-, worker, hf, -, ⟨hs, rfl⟩ | ⟨hs, rfl⟩⟩ := commitTask_ok h
    · refine worker_update (fun worker' hf' => ?_) _
      obtain rfl := Option.some.inj (hf.symm.trans hf')
      exact .committed hs
    · simp only [withoutWorkers, committed, Table.find_deleteWhere, Table.find_update]
      split
      next hw =>
        subst hw
        rw [hf]
        simp only [Option.map_some, Option.filter, decide_true, Bool.not_true,
          Bool.false_eq_true, if_false]
        exact .removed ⟨rfl, hs⟩
      next hw =>
        simp only [hw, decide_false, Bool.not_false]
        cases db.workers.find w <;> exact .same
  | addTaskCount =>
    simp only [run, Db.addTaskCount] at h
    split at h <;>
    · obtain ⟨⟩ := h
      exact .same
  | insertTask =>
    obtain ⟨-, -, rfl⟩ := insertTask_ok h
    exact .same
  | changeTask =>
    obtain ⟨_, _, _, _, _, rfl⟩ := changeTask_ok h
    exact .same
  | changeTaskLabels =>
    rcases changeTaskLabels_ok h with ⟨_, rfl⟩ | ⟨_, rfl⟩ <;> exact .same
  | cancelTask =>
    obtain ⟨_, _, _, _, rfl⟩ := cancelTask_ok h
    exact .same
  | cancelTasksByFilter =>
    obtain ⟨-, rfl⟩ := archive_ok (cancelTasksByFilter_ok h).2
    exact .same
  | cancelTasksByUuids =>
    obtain ⟨-, rfl⟩ := archive_ok (cancelTasksByUuids_ok h).2
    exact .same
  | uploadArtifact =>
    obtain ⟨_, _, ⟨_, rfl⟩ | ⟨_, rfl⟩⟩ := uploadArtifact_ok h <;> exact .same
  | shutdownWorkersByFilter groupId req =>
    simp only [run, Db.shutdownWorkersByFilter] at h
    have hsel : ∀ worker, db.workers.find w = some worker →
        ((db.workers.select (db.shutdownSelects groupId req)).find w).isSome = true →
        db.shutdownSelects groupId req w worker = true := by
      intro worker hf hs
      obtain ⟨worker', hs⟩ := Option.isSome_iff_exists.1 hs
      rw [Table.find_select, Option.filter_eq_some_iff] at hs
      obtain rfl := Option.some.inj (hf.symm.trans hs.1)
      exact hs.2
    split at h
    next hop =>
      obtain ⟨⟩ := h
      exact worker_without fun worker hf hs =>
        ⟨hsel worker hf hs, fun hg => by rw [hop] at hg; cases hg⟩
    next =>
      obtain ⟨⟩ := h
      refine worker_graceful fun worker hf hp => ?_
      rw [Table.find_select] at hp
      obtain ⟨worker', hp⟩ := Option.isSome_iff_exists.1 hp
      obtain ⟨hp, hn⟩ := Option.filter_eq_some_iff.1 hp
      rw [Table.find_select, Option.filter_eq_some_iff] at hp
      obtain rfl := Option.some.inj (hf.symm.trans hp.1)
      exact ⟨hp.2, fun _ => Option.isNone_iff_eq_none.1 hn⟩
  | shutdownWorkersByUuids userId uuids op =>
    cases op with
    | force =>
      obtain ⟨⟩ := h
      refine worker_without fun worker hf hp => ⟨?_, fun hg => by cases hg⟩
      obtain ⟨⟨w', worker'⟩, he, rfl⟩ := List.mem_map.1 (of_decide_eq_true hp)
      obtain rfl := Option.some.inj (hf.symm.trans (administeredWorkers_find he))
      exact he
    | graceful =>
      obtain ⟨⟩ := h
      refine worker_graceful fun worker hf hp => ?_
      obtain ⟨⟨w', worker'⟩, he, rfl⟩ := List.mem_map.1 (of_decide_eq_true hp)
      obtain ⟨he, hn⟩ := List.mem_filter.1 he
      obtain rfl := Option.some.inj (hf.symm.trans (administeredWorkers_find he))
      exact ⟨he, fun _ => Option.isNone_iff_eq_none.1 hn⟩
  | upsertGroupWorkers =>
    obtain ⟨-, rfl⟩ := upsertGroupWorkers_ok h
    exact .same
  | deleteGroupWorkers =>
    obtain ⟨⟩ := h
    exact .same

namespace Db
variable {db db' : Db} {w : WorkerId} {g : GroupId}

theorem role_without (p : WorkerId → Bool)
    (h : db'.groupWorker = db.groupWorker.deleteWhere fun e _ => p e.2)
    (hw : p w = true → db'.workers.find w = none) :
    RoleChange db db' g w q (db.groupWorker.find (g, w)) (db'.groupWorker.find (g, w)) := by
  rw [h]
  simp only [Table.find_deleteWhere]
  cases hf : db.groupWorker.find (g, w) with
  | none => exact .same
  | some role =>
    cases hp : p w with
    | false => exact .same
    | true => exact .removed (hw hp)

theorem withoutWorkers_find {p : WorkerId → Bool} (h : p w = true) :
    (db.withoutWorkers p).workers.find w = none := by
  simp only [withoutWorkers, Table.find_deleteWhere]
  cases db.workers.find w with
  | none => rfl
  | some => simp only [Option.filter, h, Bool.not_true, Bool.false_eq_true, if_false]

theorem graceful_find {p r : WorkerId → Bool} {f : Worker → Worker} (h : p w = true) :
    ((db.withoutWorkers p).workers.updateWhere (fun id _ => r id) f).find w = none := by
  rw [Table.find_updateWhere, withoutWorkers_find h]
  rfl

end Db

open Db in
theorem Write.roleChange {q : Write} {r : q.Ret} (h : q.run clock db = .ok (r, db'))
    (g : GroupId) (w : WorkerId) :
    RoleChange db db' g w q (db.groupWorker.find (g, w)) (db'.groupWorker.find (g, w)) := by
  cases q with
  | insertWorker =>
    obtain ⟨⟩ := h
    exact .same
  | insertGroupWorkers roles w' =>
    obtain ⟨hs, hn, rfl⟩ := insertGroupWorkers_ok h
    rcases Table.find_foldl_set (db.groupRoles roles w') db.groupWorker (g, w) with
      ⟨e, he, hk, hf⟩ | ⟨-, hf⟩
    · have hw := groupRoles_worker he
      rw [hk] at hw
      subst hw
      have hnone := hn e he
      rw [hk] at hnone
      rw [hnone, hf]
      exact .inserted hs
    · rw [hf]
      exact .same
  | deleteWorker w' =>
    obtain ⟨⟩ := h
    exact role_without (fun id => id = w') rfl fun hp => withoutWorkers_find hp
  | pushBackTask | reportState | setDownstream | triggerTask =>
    obtain ⟨_, _, _, rfl⟩ := updateTask_ok h
    exact .same
  | setGracefulShutdown | touchWorker | replaceWorkerLabels | linkWorker | replaceWorkerTags =>
    obtain ⟨_, _, _, rfl⟩ := updateWorker_ok h
    exact .same
  | assignTask =>
    rcases assignTask_ok h with ⟨-, rfl, -⟩ | ⟨_, _, _, _, _, rfl⟩ <;> exact .same
  | commitTask w' t archived now =>
    obtain ⟨-, worker, -, -, ⟨-, rfl⟩ | ⟨-, rfl⟩⟩ := commitTask_ok h
    · exact .same
    · exact role_without (fun id => id = w') rfl fun hp => withoutWorkers_find hp
  | addTaskCount =>
    simp only [run, Db.addTaskCount] at h
    split at h <;>
    · obtain ⟨⟩ := h
      exact .same
  | insertTask =>
    obtain ⟨-, -, rfl⟩ := insertTask_ok h
    exact .same
  | changeTask =>
    obtain ⟨_, _, _, _, _, rfl⟩ := changeTask_ok h
    exact .same
  | changeTaskLabels =>
    rcases changeTaskLabels_ok h with ⟨_, rfl⟩ | ⟨_, rfl⟩ <;> exact .same
  | cancelTask =>
    obtain ⟨_, _, _, _, rfl⟩ := cancelTask_ok h
    exact .same
  | cancelTasksByFilter =>
    obtain ⟨-, rfl⟩ := archive_ok (cancelTasksByFilter_ok h).2
    exact .same
  | cancelTasksByUuids =>
    obtain ⟨-, rfl⟩ := archive_ok (cancelTasksByUuids_ok h).2
    exact .same
  | uploadArtifact =>
    obtain ⟨_, _, ⟨_, rfl⟩ | ⟨_, rfl⟩⟩ := uploadArtifact_ok h <;> exact .same
  | shutdownWorkersByFilter groupId req =>
    simp only [run, Db.shutdownWorkersByFilter] at h
    split at h
    next =>
      obtain ⟨⟩ := h
      refine role_without
        (fun id => ((db.workers.select (db.shutdownSelects groupId req)).find id).isSome)
        rfl fun hp => ?_
      exact withoutWorkers_find hp
    next =>
      obtain ⟨⟩ := h
      refine role_without (fun id => (((db.workers.select (db.shutdownSelects groupId req)).select
        fun _ w => w.assignedTaskId.isNone).find id).isSome) rfl fun hp => ?_
      exact graceful_find hp
  | shutdownWorkersByUuids userId uuids op =>
    cases op with
    | force =>
      obtain ⟨⟩ := h
      refine role_without (fun id => id ∈ (db.administeredWorkers userId uuids).map Prod.fst)
        rfl fun hp => ?_
      exact withoutWorkers_find hp
    | graceful =>
      obtain ⟨⟩ := h
      refine role_without (fun id => id ∈ ((db.administeredWorkers userId uuids).filter
        fun e => e.2.assignedTaskId.isNone).map Prod.fst) rfl fun hp => ?_
      exact graceful_find hp
  | upsertGroupWorkers w' relations =>
    obtain ⟨hs, rfl⟩ := upsertGroupWorkers_ok h
    have hl : relations.foldl (fun t e => t.set (e.1, w') e.2) db.groupWorker =
        (relations.map fun e => ((e.1, w'), e.2)).foldl (fun t e => t.set e.1 e.2)
          db.groupWorker := by rw [List.foldl_map]
    simp only [hl]
    rcases Table.find_foldl_set (relations.map fun e => ((e.1, w'), e.2)) db.groupWorker (g, w)
      with ⟨e, he, hk, hf⟩ | ⟨-, hf⟩
    · obtain ⟨x, hx, rfl⟩ := List.mem_map.1 he
      obtain ⟨⟩ := hk
      rw [hf]
      exact .upserted hs hx
    · rw [hf]
      exact .same
  | deleteGroupWorkers w' groups =>
    obtain ⟨⟩ := h
    simp only [Table.find_deleteWhere]
    cases hf : db.groupWorker.find (g, w) with
    | none => exact .same
    | some role =>
      by_cases hg : g ∈ groups ∧ w = w'
      · obtain ⟨hg, rfl⟩ := hg
        simp only [Option.filter, hg, and_self, decide_true, Bool.not_true, Bool.false_eq_true,
          if_false]
        exact .deleted hg
      · simp only [Option.filter, hg, decide_false, Bool.not_false, if_true]
        exact .same

/-- The ids that a write draws from the sequences. -/
def Write.newTasks : Write → Nat
  | .insertTask _ => 1
  | _ => 0

def Write.newWorkers : Write → Nat
  | .insertWorker _ _ _ _ _ => 1
  | _ => 0

open Db in
theorem Write.sequences {q : Write} {r : q.Ret} (h : q.run clock db = .ok (r, db')) :
    db'.taskSeq = db.taskSeq + q.newTasks ∧ db'.workerSeq = db.workerSeq + q.newWorkers := by
  cases q with
  | insertWorker | deleteWorker | deleteGroupWorkers =>
    obtain ⟨⟩ := h
    exact ⟨rfl, rfl⟩
  | insertGroupWorkers =>
    obtain ⟨_, _, rfl⟩ := insertGroupWorkers_ok h
    exact ⟨rfl, rfl⟩
  | pushBackTask | reportState | setDownstream | triggerTask =>
    obtain ⟨_, _, _, rfl⟩ := updateTask_ok h
    exact ⟨rfl, rfl⟩
  | setGracefulShutdown | touchWorker | replaceWorkerLabels | linkWorker | replaceWorkerTags =>
    obtain ⟨_, _, _, rfl⟩ := updateWorker_ok h
    exact ⟨rfl, rfl⟩
  | assignTask =>
    rcases assignTask_ok h with ⟨-, rfl, -⟩ | ⟨_, _, _, _, _, rfl⟩ <;> exact ⟨rfl, rfl⟩
  | commitTask =>
    obtain ⟨-, _, -, -, ⟨-, rfl⟩ | ⟨-, rfl⟩⟩ := commitTask_ok h <;> exact ⟨rfl, rfl⟩
  | addTaskCount =>
    simp only [run, Db.addTaskCount] at h
    split at h <;>
    · obtain ⟨⟩ := h
      exact ⟨rfl, rfl⟩
  | insertTask =>
    obtain ⟨-, -, rfl⟩ := insertTask_ok h
    exact ⟨rfl, rfl⟩
  | changeTask =>
    obtain ⟨_, _, _, _, _, rfl⟩ := changeTask_ok h
    exact ⟨rfl, rfl⟩
  | changeTaskLabels =>
    rcases changeTaskLabels_ok h with ⟨_, rfl⟩ | ⟨_, rfl⟩ <;> exact ⟨rfl, rfl⟩
  | cancelTask =>
    obtain ⟨_, _, _, _, rfl⟩ := cancelTask_ok h
    exact ⟨rfl, rfl⟩
  | cancelTasksByFilter =>
    obtain ⟨-, rfl⟩ := archive_ok (cancelTasksByFilter_ok h).2
    exact ⟨rfl, rfl⟩
  | cancelTasksByUuids =>
    obtain ⟨-, rfl⟩ := archive_ok (cancelTasksByUuids_ok h).2
    exact ⟨rfl, rfl⟩
  | uploadArtifact =>
    obtain ⟨_, _, ⟨_, rfl⟩ | ⟨_, rfl⟩⟩ := uploadArtifact_ok h <;> exact ⟨rfl, rfl⟩
  | shutdownWorkersByFilter groupId req =>
    simp only [run, Db.shutdownWorkersByFilter] at h
    split at h <;>
    · obtain ⟨⟩ := h
      exact ⟨rfl, rfl⟩
  | shutdownWorkersByUuids userId uuids op =>
    cases op <;>
    · obtain ⟨⟩ := h
      exact ⟨rfl, rfl⟩
  | upsertGroupWorkers =>
    obtain ⟨-, rfl⟩ := upsertGroupWorkers_ok h
    exact ⟨rfl, rfl⟩

end Mitosis
