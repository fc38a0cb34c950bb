import Mitosis.Proof.ArchivedRows
import Mitosis.Proof.TaskMoves

namespace Mitosis
set_option autoImplicit true

namespace Tasks
open Txns (applyAll)

def shows : Entry Cmd Cmd.Resp → Option (TaskId × Ident)
  | ⟨.select (.task id), .ok (some task)⟩ => some (id, task.ident)
  | ⟨.select (.activeByUuid _), .ok (some (id, task))⟩ => some (id, task.ident)
  | ⟨.select (.archivedByUuid _), .ok (some (id, task))⟩ => some (id, task.ident)
  | ⟨.readyTask _, .ok (some (id, task))⟩ => some (id, task.ident)
  | ⟨.insertTask task, .ok (id, _)⟩ => some (id, task.ident)
  | _ => none

def landed (K : History) : Entry Cmd Cmd.Resp → List Write
  | ⟨.commit, .ok _⟩ => ((txn K).getD []).reverse
  | ⟨c, r⟩ => if (txn K).isNone then c.writes r else []

/-- What holds of the database, and of what the sessions have done. -/
structure Tracked (x : Infra) (log : List Event) : Prop where
  records : Txns.Recorded txn Write.current x.txns log
  sound : x.txns.committed.Sound
  counts : ∀ g group, x.txns.committed.groups.find g = some group → 0 ≤ group.taskCount
  bounds : ∀ t o, x.txns.committed.ident t = some o → t < x.nextTask ∧ o.uuid < x.nextUuid
  shown : ∀ e ∈ log, ∀ t o, shows e.entry = some (t, o) → x.txns.committed.ident t = some o
  fresh : ∀ i u, fresh (history i log) = some u → u < x.nextUuid ∧
    (∀ t o, x.txns.committed.ident t = some o → o.uuid ≠ u) ∧
    ∀ j, j ≠ i → fresh (history j log) ≠ some u
  drawn : ∀ i g n, drawn (history i log) = some (g, n) →
    (∃ group, x.txns.committed.groups.find g = some group ∧ 1 ≤ n ∧ n ≤ group.taskCount) ∧
    (∀ t o, x.txns.committed.ident t = some o → o.groupId = g → o.taskId ≠ n) ∧
    ∀ j, j ≠ i → drawn (history j log) ≠ some (g, n)

theorem addTaskCount_ok {db : Db} {ws : List Write}
    (h : (addTaskCount name time db).result = .ok (a, ws)) :
    (addTaskCount name time db).waits = ws.flatMap Write.rows ∧
      (a = none ∧ ws = [] ∨ ∃ id group, db.groups.find id = some group ∧ a = some (id,
        { group with taskCount := group.taskCount + 1, updatedAt := time }) ∧
        ws = [.addCount id time]) := by
  unfold addTaskCount at h ⊢
  cases hf : db.groups.findWhere fun _ group => group.groupName = name with
  | none =>
    rw [hf] at h
    obtain ⟨⟩ := h
    exact ⟨rfl, .inl ⟨rfl, rfl⟩⟩
  | some e =>
    obtain ⟨id, group⟩ := e
    rw [hf] at h
    obtain ⟨⟩ := h
    exact ⟨rfl, .inr ⟨id, group, (Table.findWhere_some hf).1, rfl, rfl⟩⟩

theorem insertTask_ok {db : Db} {id : TaskId} {ws : List Write}
    (h : (insertTask id task db).result = .ok (a, ws)) :
    insertConflict db id task = false ∧ a = (id, task) ∧ ws = [.addActive id task] := by
  simp only [insertTask] at h
  split at h
  next => cases h
  next hc =>
    obtain ⟨⟩ := h
    exact ⟨Bool.eq_false_iff.2 hc, rfl, rfl⟩

theorem changeTask_ok {db : Db} {id : TaskId} {ws : List Write}
    (h : (changeTask id c time db).result = .ok (a, ws)) :
    (changeTask id c time db).waits = [.active id] ∧ ws = [.change id c time] ∧
      ∃ task, db.activeTasks.find id = some task ∧ a = c.run time task := by
  unfold changeTask at h ⊢
  cases hf : db.activeTasks.find id with
  | none =>
    rw [hf] at h
    cases h
  | some task =>
    rw [hf] at h
    obtain ⟨⟩ := h
    exact ⟨rfl, rfl, task, rfl, rfl⟩

theorem changeArchived_ok {db : Db} {id : TaskId} {ws : List Write}
    (h : (changeArchived id c time db).result = .ok (a, ws)) :
    (changeArchived id c time db).waits = [.archived id] ∧ ws = [.changeArchived id c time] ∧
      ∃ task, db.archivedTasks.find id = some task ∧ a = c.run time task := by
  unfold changeArchived at h ⊢
  cases hf : db.archivedTasks.find id with
  | none =>
    rw [hf] at h
    cases h
  | some task =>
    rw [hf] at h
    obtain ⟨⟩ := h
    exact ⟨rfl, rfl, task, rfl, rfl⟩

theorem assignTask_ok {db : Db} {id : TaskId} {ws : List Write}
    (h : (assignTask workerId id time db).result = .ok (a, ws)) :
    a = none ∧ ws = [] ∨ (assignTask workerId id time db).waits = [.active id] ∧
      ws = [.change id (.assign workerId) time] ∧
      ∃ task, db.activeTasks.find id = some task ∧ task.assignedWorker = none ∧
        task.state = .ready ∧ a = some ((Change.assign workerId).run time task) := by
  unfold assignTask at h ⊢
  cases hf : db.activeTasks.find id with
  | none =>
    rw [hf] at h
    obtain ⟨⟩ := h
    exact .inl ⟨rfl, rfl⟩
  | some task =>
    rw [hf] at h
    dsimp only at h ⊢
    split at h
    next hc =>
      obtain ⟨⟩ := h
      rw [if_pos hc]
      exact .inr ⟨rfl, rfl, task, rfl, hc.1, hc.2, rfl⟩
    next =>
      obtain ⟨⟩ := h
      exact .inl ⟨rfl, rfl⟩

theorem insertArchived_ok {db : Db} {id : TaskId} {ws : List Write}
    (h : (insertArchived id task db).result = .ok (a, ws)) :
    db.archiveConflict id task = false ∧ ws = [.addArchived id task] := by
  simp only [insertArchived] at h
  split at h
  next => cases h
  next hc =>
    obtain ⟨⟩ := h
    exact ⟨Bool.eq_false_iff.2 hc, rfl⟩

theorem archiveTasks_ok {db : Db} {ws : List Write}
    (h : (archiveTasks sel time db).result = .ok (a, ws)) :
    a = (sel.tasks db).mapRows (Db.cancelledTask time) ∧ ws = [.archive a] ∧
      ∀ t row, a.find t = some row → db.archiveConflict t row = false := by
  simp only [archiveTasks] at h
  split at h
  next => cases h
  next hc =>
    obtain ⟨⟩ := h
    refine ⟨rfl, rfl, ?_⟩
    intro t row hr
    rw [List.any_eq_true, not_exists] at hc
    exact Bool.eq_false_iff.2 fun h => hc (t, row) ⟨Table.mem_rows.2 hr, h⟩

theorem updateWorker_ok {db : Db} {id : WorkerId} {ws : List Write}
    (h : (updateWorker id c db).result = .ok (a, ws)) :
    (updateWorker id c db).waits = [.worker id] ∧ ws = [.setWorker id c] := by
  unfold updateWorker at h ⊢
  cases hf : db.workers.find id with
  | none =>
    rw [hf] at h
    cases h
  | some worker =>
    rw [hf] at h
    obtain ⟨⟩ := h
    exact ⟨rfl, rfl⟩

theorem selected_active {db : Db} {sel : CancelSelection} (h : (sel.tasks db).find t = some task) :
    db.activeTasks.find t = some task := by
  cases sel with
  | filter f =>
    simp only [CancelSelection.tasks, Db.filteredTasks, Table.find_select,
      Option.filter_eq_some_iff] at h
    exact h.1
  | uuids userId us =>
    simp only [CancelSelection.tasks, Db.cancellableTasks, Table.find_select,
      Option.filter_eq_some_iff] at h
    exact h.1

theorem Write.current_frame (w w' : Write) (db : Db)
    (h : ∀ k ∈ RowWrite.rows w, k ∉ RowWrite.rows (κ := Row) w') (hc : w.current db) :
    w.current (RowWrite.apply w' db) := w.current_apply w' db h hc

/-- What a statement answers that writes, in terms of its entry. -/
def Answers (c : Cmd) (q : Db → Answer Row Write Error c.Ret) (v db : Db) : Prop :=
  ∀ a ws, (q v).result = .ok (a, ws) → ws = c.writes (.ok a) ∧
    (∀ w ∈ ws, ∀ k ∈ w.rows, k ∈ (q v).waits) ∧ ∀ w ∈ ws, w.current db

theorem answers_one {c : Cmd} {q : Db → Answer Row Write Error c.Ret} {v db : Db}
    (h : ∀ a ws, (q v).result = .ok (a, ws) → ∃ w, ws = [w] ∧ c.writes (.ok a) = [w] ∧
      (∀ k ∈ w.rows, k ∈ (q v).waits) ∧ w.current db) : Answers c q v db := by
  intro a ws hr
  obtain ⟨w, rfl, hw, hk, hc⟩ := h a ws hr
  refine ⟨hw.symm, ?_, ?_⟩
  · intro w' hm
    obtain rfl := List.mem_singleton.1 hm
    exact hk
  · intro w' hm
    obtain rfl := List.mem_singleton.1 hm
    exact hc

namespace Tracked
variable {x x' : Infra} {log : List Event} {i : Nat} {id : TaskId} {c : Cmd} {r : c.Resp}

theorem view_eq (h : Tracked x log) (ht : (txn (history i log)).getD [] = []) :
    x.txns.view i = x.txns.committed := by
  cases hi : txn (history i log) with
  | none => exact h.records.view_none hi
  | some us =>
    rw [hi, Option.getD_some] at ht
    rw [h.records.view_some hi, ht]
    rfl

theorem executed {txns : Txns Db Write} {q : Db → Answer Row Write Error c.Ret}
    (h : Tracked x log) (hq : Answers c q (x.txns.view i) x.txns.committed)
    (hx : x.txns.execute i q = some (r, txns))
    (ht : ∀ r, txn (⟨c, r⟩ :: history i log) =
      (txn (history i log)).map ((c.writes r).reverse ++ ·) := by exact fun _ => rfl)
    (he : ∀ e, c.writes (.error e) = [] := by exact fun _ => rfl) :
    Txns.Recorded txn Write.current txns (log ++ [⟨i, k, c, r⟩]) ∧ txns.committed =
        applyAll (if (txn (history i log)).isNone then c.writes r else []) x.txns.committed ∧
      ∀ w ∈ c.writes r, w.current x.txns.committed := by
  obtain ⟨hl, ⟨e, rfl, -, rfl⟩ | ⟨a, ws, rfl, ha, rfl⟩⟩ := Txns.execute_cases hx
  · have hst : txn (⟨c, .error e⟩ :: history i log) = txn (history i log) := by
      rw [ht, he]
      exact Option.map_id'
    rw [he, ite_self]
    exact ⟨h.records.still hst, rfl, List.forall_mem_nil _⟩
  · obtain ⟨rfl, hrows, hcur⟩ := hq a ws ha
    cases hi : txn (history i log) with
    | none =>
      have hnew : txn (⟨c, .ok a⟩ :: history i log) = none := by rw [ht, hi, Option.map_none]
      obtain ⟨hr, hc⟩ := h.records.writeAlone (k := k) Write.current_frame hi hnew hl hrows
      refine ⟨hr, ?_, hcur⟩
      rw [hc]
      rfl
    | some us =>
      have hnew : txn (⟨c, .ok a⟩ :: history i log) = some ((c.writes (.ok a)).reverse ++ us) := by
        rw [ht, hi, Option.map_some]
      obtain ⟨hr, hc⟩ := h.records.write (k := k) Write.current_frame hi hnew hl hrows hcur
      refine ⟨hr, ?_, hcur⟩
      rw [hc]
      rfl

theorem read (h : Tracked x log) (hr : Read (history i log) t task) :
    x.txns.committed.ident t = some task.ident := by
  rcases hr with hr | ⟨uuid, hr⟩
  · obtain ⟨k, hm⟩ := mem_history.1 hr
    exact h.shown _ hm t _ rfl
  · obtain ⟨k, hm⟩ := mem_history.1 hr
    exact h.shown _ hm t _ rfl

theorem copied_active (h : Tracked x log) (hc : Copied (history i log) t row)
    (hn : x.txns.committed.archivedTasks.find t = none) :
    ∃ task, x.txns.committed.activeTasks.find t = some task ∧ task.ident = row.ident := by
  obtain ⟨task, hr, he⟩ := hc.ident
  have hi := h.read hr
  cases hf : x.txns.committed.activeTasks.find t with
  | some task' =>
    rw [Db.ident_active hf] at hi
    exact ⟨task', rfl, (Option.some.inj hi).trans he.symm⟩
  | none =>
    rw [Db.ident_archived hf, hn] at hi
    cases hi

theorem answers_change (h : Tracked x log) (hn : (Cmd.change id c' time).sourced (history i log)) :
    Answers (.change id c' time) (changeTask id c' time) (x.txns.view i) x.txns.committed := by
  rw [h.view_eq hn.1]
  apply answers_one
  intro a ws hr
  obtain ⟨hw, rfl, task, hf, -⟩ := changeTask_ok hr
  rw [hw]
  exact ⟨_, rfl, rfl, fun _ hk => hk, task, hf⟩

theorem answers_changeArchived (h : Tracked x log)
    (hn : (Cmd.changeArchived id c' time).sourced (history i log)) :
    Answers (.changeArchived id c' time) (changeArchived id c' time) (x.txns.view i)
      x.txns.committed := by
  rw [h.view_eq (by rw [hn, Option.getD_some])]
  apply answers_one
  intro a ws hr
  obtain ⟨hw, rfl, task, hf, -⟩ := changeArchived_ok hr
  rw [hw]
  exact ⟨_, rfl, rfl, fun _ hk => hk, task, hf⟩

theorem answers_assign (h : Tracked x log)
    (hn : (Cmd.assignTask workerId id time).sourced (history i log)) :
    Answers (.assignTask workerId id time) (assignTask workerId id time) (x.txns.view i)
      x.txns.committed := by
  rw [h.records.view_none hn]
  intro a ws hr
  rcases assignTask_ok hr with ⟨rfl, rfl⟩ | ⟨hw, rfl, task, hf, -, -, rfl⟩
  · exact ⟨rfl, List.forall_mem_nil _, List.forall_mem_nil _⟩
  · rw [hw]
    refine ⟨rfl, ?_, ?_⟩
    · intro w hm
      obtain rfl := List.mem_singleton.1 hm
      exact fun _ hk => hk
    · intro w hm
      obtain rfl := List.mem_singleton.1 hm
      exact ⟨task, hf⟩

theorem answers_pushBack (h : Tracked x log)
    (hn : (Cmd.pushBackTasks sel time).sourced (history i log)) :
    Answers (.pushBackTasks sel time) (pushBackTasks sel time) (x.txns.view i)
      x.txns.committed := by
  rw [h.view_eq (by rw [hn, Option.getD_some])]
  intro a ws hr
  obtain ⟨⟩ := hr
  refine ⟨?_, ?_, ?_⟩
  · simp only [Cmd.writes, Table.mapRows, Table.keys, List.map_map, Function.comp_def]
  · intro w hm k hk
    obtain ⟨t, ht, rfl⟩ := List.mem_map.1 hm
    obtain rfl := List.mem_singleton.1 hk
    exact List.mem_map_of_mem ht
  · intro w hm
    obtain ⟨t, ht, rfl⟩ := List.mem_map.1 hm
    obtain ⟨task, hf⟩ := Table.mem_keys.1 ht
    rw [Table.find_select] at hf
    exact ⟨task, (Option.filter_eq_some_iff.1 hf).1⟩

theorem answers_insertArchived (h : Tracked x log)
    (hn : (Cmd.insertArchived id row).sourced (history i log)) :
    Answers (.insertArchived id row) (insertArchived id row) (x.txns.view i)
      x.txns.committed := by
  rw [h.view_eq (by rw [hn.1, Option.getD_some])]
  apply answers_one
  intro a ws hr
  obtain ⟨hc, rfl⟩ := insertArchived_ok hr
  exact ⟨_, rfl, rfl, fun _ hk => hk, Db.archiveConflict_find hc⟩

/-- The task that a transaction deletes is there: its copy could be inserted. -/
theorem answers_deleteActive (h : Tracked x log)
    (hn : (Cmd.deleteActive id).sourced (history i log)) :
    Answers (.deleteActive id) (deleteActive id) (x.txns.view i) x.txns.committed := by
  obtain ⟨row, ht, hcopy⟩ := hn
  have hcur := h.records.guarded.current i _ (.addArchived id row) (h.records.find ht) (.head _)
  obtain ⟨task, hf, -⟩ := h.copied_active hcopy hcur
  have hv : (x.txns.view i).activeTasks.find id = some task := by
    rw [h.records.view_some ht]
    exact hf
  apply answers_one
  intro a ws hr
  unfold deleteActive at hr ⊢
  rw [hv] at hr ⊢
  obtain ⟨⟩ := hr
  exact ⟨_, rfl, rfl, fun _ hk => hk, trivial⟩

theorem answers_archive (h : Tracked x log)
    (hn : (Cmd.archiveTasks sel time).sourced (history i log)) :
    Answers (.archiveTasks sel time) (archiveTasks sel time) (x.txns.view i)
      x.txns.committed := by
  rw [h.view_eq (by rw [hn, Option.getD_some])]
  apply answers_one
  intro a ws hr
  obtain ⟨rfl, rfl, hc⟩ := archiveTasks_ok hr
  refine ⟨_, rfl, rfl, fun _ hk => hk, ?_⟩
  intro t row hf
  refine ⟨Db.archiveConflict_find (hc t row hf), ?_⟩
  rw [Table.find_mapRows] at hf
  obtain ⟨task, ht, rfl⟩ := Option.map_eq_some_iff.1 hf
  exact ⟨task, time, selected_active ht, rfl⟩

theorem answers_updateWorker (v db : Db) (id : WorkerId) (c' : WorkerChange) :
    Answers (.updateWorker id c') (updateWorker id c') v db := by
  apply answers_one
  intro a ws hr
  obtain ⟨hw, rfl⟩ := updateWorker_ok hr
  rw [hw]
  exact ⟨_, rfl, rfl, fun _ hk => hk, trivial⟩

theorem answers_deleteWorkers (v db : Db) (sel : WorkerSelection) :
    Answers (.deleteWorkers sel) (deleteWorkers sel) v db := by
  apply answers_one
  intro a ws hr
  obtain ⟨⟩ := hr
  exact ⟨_, rfl, rfl, fun _ hk => hk, trivial⟩

theorem answers_retireWorkers (v db : Db) (sel : WorkerSelection) (time : Instant) :
    Answers (.retireWorkers sel time) (retireWorkers sel time) v db := by
  intro a ws hr
  obtain ⟨⟩ := hr
  refine ⟨rfl, ?_, ?_⟩
  · intro w hm k hk
    obtain ⟨t, ht, rfl⟩ := List.mem_map.1 hm
    obtain rfl := List.mem_singleton.1 hk
    exact List.mem_map_of_mem ht
  · intro w hm
    obtain ⟨t, ht, rfl⟩ := List.mem_map.1 hm
    trivial

theorem answers_count (v db : Db) (req : SubmitTaskReq) (time : Instant) :
    Answers (.addTaskCount req time) (addTaskCount req.groupName time) v db := by
  intro a ws hr
  obtain ⟨hw, ⟨rfl, rfl⟩ | ⟨id, group, -, rfl, rfl⟩⟩ := addTaskCount_ok hr
  · exact ⟨rfl, List.forall_mem_nil _, List.forall_mem_nil _⟩
  · rw [hw]
    refine ⟨rfl, ?_, ?_⟩
    · intro w hm
      obtain rfl := List.mem_singleton.1 hm
      exact fun _ hk => hk
    · intro w hm
      obtain rfl := List.mem_singleton.1 hm
      trivial

theorem answers_insert (v db : Db) (id : TaskId) (task : ActiveTask) :
    Answers (.insertTask task) (insertTask id task) v db := by
  apply answers_one
  intro a ws hr
  obtain ⟨-, rfl, rfl⟩ := insertTask_ok hr
  exact ⟨_, rfl, rfl, fun _ hk => hk, trivial⟩

end Tracked

theorem commits_nil (db : Db) (K : History) : Commits db K [] :=
  .plain (List.forall_mem_nil _) (List.forall_mem_nil _)

/-- The statements that neither add nor move a task. -/
def Cmd.alters : Cmd → Prop
  | .change _ _ _ | .changeArchived _ _ _ | .assignTask _ _ _ | .pushBackTasks _ _
  | .updateWorker _ _ | .deleteWorkers _ | .retireWorkers _ _ => True
  | _ => False

theorem writes_plain {c : Cmd} (r : c.Resp) (hc : c.alters := by trivial) : ∀ w ∈ c.writes r, w.plain := by
  have hone : ∀ w : Write, w.plain → ∀ w' ∈ [w], w'.plain := by
    intro w hw w' hm
    obtain rfl := List.mem_singleton.1 hm
    exact hw
  have hmap : ∀ {α : Type} (l : List α) (f : α → Write), (∀ a, (f a).plain) →
      ∀ w ∈ l.map f, w.plain := by
    intro α l f hf w hm
    obtain ⟨a, -, rfl⟩ := List.mem_map.1 hm
    exact hf a
  cases r with
  | error e =>
    cases c with
    | change | changeArchived | assignTask | pushBackTasks | updateWorker | deleteWorkers
    | retireWorkers => exact List.forall_mem_nil _
    | _ => exact hc.elim
  | ok a =>
    cases c with
    | change | changeArchived | updateWorker | deleteWorkers => exact hone _ trivial
    | assignTask =>
      cases a with
      | none => exact List.forall_mem_nil _
      | some _ => exact hone _ trivial
    | pushBackTasks => exact hmap _ _ fun _ => trivial
    | retireWorkers => exact hmap _ _ fun _ => trivial
    | _ => exact hc.elim

theorem Batch.commits {db : Db} (hb : Batch K ws) (hc : ∀ w ∈ ws, w.current db) :
    Commits db K ws.reverse := by
  have hc' : ∀ w ∈ ws.reverse, w.current db := fun w hm => hc w (List.mem_reverse.1 hm)
  rcases hb with hp | ⟨tasks, rfl⟩ | ⟨id, row, rest, rfl, hp, hcopy⟩
  · exact .plain (fun w hm => hp w (List.mem_reverse.1 hm)) hc'
  · exact .archive (hc _ (.head _))
  · rw [List.reverse_append]
    apply Commits.move _ hcopy
    · exact fun w hm => hp w (List.mem_reverse.1 hm)
    · exact hc (.addArchived id row) (List.mem_append_right _ (.tail _ (.head _)))

/-- What a command does to the database. -/
structure Does (x x' : Infra) (log : List Event) (i : Nat) (k : Call) (e : Entry Cmd Cmd.Resp) :
    Prop where
  records : Txns.Recorded txn Write.current x'.txns (log ++ [⟨i, k, e⟩])
  committed : x'.txns.committed = applyAll (landed (history i log) e) x.txns.committed
  commits : Commits x.txns.committed (history i log) (landed (history i log) e)

namespace Tracked
variable {x x' : Infra} {log : List Event} {i : Nat} {k : Call} {c : Cmd} {r : c.Resp}

/-- A command that writes nothing, and leaves transactions as they are. -/
theorem does_still (h : Tracked x log) (r : c.Resp) (hw : c.writes r = [] := by rfl)
    (ht : txn (⟨c, r⟩ :: history i log) =
      (txn (history i log)).map ((c.writes r).reverse ++ ·) := by rfl)
    (hl : landed (history i log) ⟨c, r⟩ =
      if (txn (history i log)).isNone then c.writes r else [] := by rfl)
    (hx : x'.txns = x.txns := by rfl) : Does x x' log i k ⟨c, r⟩ := by
  have hnil : landed (history i log) ⟨c, r⟩ = [] := by rw [hl, hw, ite_self]
  constructor
  · rw [hx]
    apply h.records.still
    rw [ht, hw]
    exact Option.map_id'
  · rw [hx, hnil]
    rfl
  · rw [hnil]
    exact commits_nil _ _

theorem does_alter {txns : Txns Db Write} {q : Db → Answer Row Write Error c.Ret}
    (h : Tracked x log) (hc : c.alters) (hq : Answers c q (x.txns.view i) x.txns.committed)
    (hx : x.txns.execute i q = some (r, txns))
    (ht : ∀ r, txn (⟨c, r⟩ :: history i log) =
      (txn (history i log)).map ((c.writes r).reverse ++ ·) := by exact fun _ => rfl)
    (he : ∀ e, c.writes (.error e) = [] := by exact fun _ => rfl)
    (hl : landed (history i log) ⟨c, r⟩ =
      if (txn (history i log)).isNone then c.writes r else [] := by rfl)
    (hx' : x'.txns = txns := by rfl) : Does x x' log i k ⟨c, r⟩ := by
  obtain ⟨hr, hcom, hcur⟩ := h.executed (k := k) hq hx ht he
  constructor
  · rw [hx']
    exact hr
  · rw [hx', hl]
    exact hcom
  · rw [hl]
    split
    · exact .plain (writes_plain r hc) hcur
    · exact commits_nil _ _

theorem does_inside {txns : Txns Db Write} {q : Db → Answer Row Write Error c.Ret}
    (h : Tracked x log) (hs : txn (history i log) = some us)
    (hq : Answers c q (x.txns.view i) x.txns.committed)
    (hx : x.txns.execute i q = some (r, txns))
    (ht : ∀ r, txn (⟨c, r⟩ :: history i log) =
      (txn (history i log)).map ((c.writes r).reverse ++ ·) := by exact fun _ => rfl)
    (he : ∀ e, c.writes (.error e) = [] := by exact fun _ => rfl)
    (hl : landed (history i log) ⟨c, r⟩ =
      if (txn (history i log)).isNone then c.writes r else [] := by rfl)
    (hx' : x'.txns = txns := by rfl) : Does x x' log i k ⟨c, r⟩ := by
  obtain ⟨hr, hcom, -⟩ := h.executed (k := k) hq hx ht he
  have hnil : landed (history i log) ⟨c, r⟩ = [] := by
    rw [hl, hs]
    rfl
  constructor
  · rw [hx']
    exact hr
  · rw [hx', hl]
    exact hcom
  · rw [hnil]
    exact commits_nil _ _

theorem does_commit (h : Tracked x log) (hn : Cmd.commit.sourced (history i log)) :
    Does x { x with txns := x.txns.commit i } log i k ⟨.commit, .ok ()⟩ := by
  obtain ⟨ws, ht, hb⟩ := hn
  have hl : landed (history i log) ⟨.commit, .ok ()⟩ = ws.reverse := by
    change ((txn (history i log)).getD []).reverse = _
    rw [ht, Option.getD_some]
  constructor
  · exact h.records.commit Write.current_frame rfl
  · rw [hl]
    exact h.records.view_some ht
  · rw [hl]
    apply hb.commits
    intro w hm
    exact h.records.guarded.current i _ w (h.records.find ht) (List.mem_reverse.2 hm)

theorem does_count {r : (Cmd.addTaskCount req time).Resp} (h : Tracked x log)
    (hn : txn (history i log) = none)
    (hx : x.txns.execute i (addTaskCount req.groupName time) = some (r, txns)) :
    Does x { x with txns := txns } log i k ⟨.addTaskCount req time, r⟩ := by
  obtain ⟨hr, hcom, -⟩ := h.executed (k := k) (answers_count _ _ req time) hx
  constructor
  · exact hr
  · exact hcom
  · change Commits _ _ (if (txn (history i log)).isNone then _ else _)
    rw [if_pos (by rw [hn]; rfl)]
    obtain ⟨-, ⟨e, rfl, -⟩ | ⟨a, ws, rfl, ha, -⟩⟩ := Txns.execute_cases hx
    · exact commits_nil _ _
    · rw [h.records.view_none hn] at ha
      obtain ⟨-, ⟨rfl, -⟩ | ⟨id, group, hf, rfl, -⟩⟩ := addTaskCount_ok ha
      · exact commits_nil _ _
      · exact .count hf

theorem does_insert {r : (Cmd.insertTask task).Resp} (h : Tracked x log)
    (hn : (Cmd.insertTask task).sourced (history i log))
    (hx : x.txns.execute i (insertTask x.nextTask task) = some (r, txns)) :
    Does x { x with txns := txns, nextTask := x.nextTask + 1 } log i k
      ⟨.insertTask task, r⟩ := by
  obtain ⟨hr, hcom, -⟩ := h.executed (k := k) (answers_insert _ _ _ task) hx
  constructor
  · exact hr
  · exact hcom
  · change Commits _ _ (if (txn (history i log)).isNone then _ else _)
    rw [if_pos (by rw [hn.1]; rfl)]
    obtain ⟨-, ⟨e, rfl, -⟩ | ⟨a, ws, rfl, ha, -⟩⟩ := Txns.execute_cases hx
    · exact commits_nil _ _
    · rw [h.records.view_none hn.1] at ha
      obtain ⟨hc, rfl, -⟩ := insertTask_ok ha
      apply Commits.insert hc _ hn.2.1 hn.2.2
      cases hf : x.txns.committed.archivedTasks.find x.nextTask with
      | none => rfl
      | some row =>
        have hnone : x.txns.committed.activeTasks.find x.nextTask = none := by
          cases ha : x.txns.committed.activeTasks.find x.nextTask with
          | none => rfl
          | some task' =>
            rw [h.sound.apart _ _ ha] at hf
            cases hf
        have hi := Db.ident_archived hnone
        rw [hf] at hi
        exact (Nat.lt_irrefl _ (h.bounds _ _ hi).1).elim

theorem does (h : Tracked x log) (hn : c.sourced (history i log))
    (hx : c.exec i chance x = some (r, x')) : Does x x' log i k ⟨c, r⟩ := by
  unfold Cmd.exec at hx
  cases hf : chance.fault with
  | some e =>
    rw [hf] at hx
    have hfail : c.failed i e x = (r, x') := Option.some.inj hx
    cases c with
    | commit | rollback =>
      obtain ⟨⟩ := hfail
      constructor
      · exact h.records.rollback rfl
      · change _ = applyAll (if (txn (history i log)).isNone then [] else []) _
        rw [ite_self]
        rfl
      · change Commits _ _ (if (txn (history i log)).isNone then [] else [])
        rw [ite_self]
        exact commits_nil _ _
    | _ =>
      obtain ⟨⟩ := hfail
      exact h.does_still _
  | none =>
    rw [hf] at hx
    cases c with
    | start =>
      obtain ⟨⟩ := hx
      constructor
      · exact h.records.start rfl
      · change _ = applyAll (if (txn (history i log)).isNone then [] else []) _
        rw [ite_self]
        rfl
      · change Commits _ _ (if (txn (history i log)).isNone then [] else [])
        rw [ite_self]
        exact commits_nil _ _
    | commit =>
      obtain ⟨⟩ := hx
      exact h.does_commit hn
    | rollback =>
      obtain ⟨⟩ := hx
      constructor
      · exact h.records.rollback rfl
      · change _ = applyAll (if (txn (history i log)).isNone then [] else []) _
        rw [ite_self]
        rfl
      · change Commits _ _ (if (txn (history i log)).isNone then [] else [])
        rw [ite_self]
        exact commits_nil _ _
    | addTaskCount req time =>
      obtain ⟨⟨r', txns⟩, hr, he⟩ := Option.map_eq_some_iff.1 hx
      obtain ⟨⟩ := he
      exact h.does_count hn.1 hr
    | insertTask task =>
      obtain ⟨⟨r', txns⟩, hr, he⟩ := Option.map_eq_some_iff.1 hx
      obtain ⟨⟩ := he
      exact h.does_insert hn hr
    | change id c time =>
      obtain ⟨⟨r', txns⟩, hr, he⟩ := Option.map_eq_some_iff.1 hx
      obtain ⟨⟩ := he
      exact h.does_alter trivial (h.answers_change hn) hr
    | changeArchived id c time =>
      obtain ⟨⟨r', txns⟩, hr, he⟩ := Option.map_eq_some_iff.1 hx
      obtain ⟨⟩ := he
      exact h.does_alter trivial (h.answers_changeArchived hn) hr
    | assignTask workerId id time =>
      obtain ⟨⟨r', txns⟩, hr, he⟩ := Option.map_eq_some_iff.1 hx
      obtain ⟨⟩ := he
      exact h.does_alter trivial (h.answers_assign hn) hr
    | pushBackTasks sel time =>
      obtain ⟨⟨r', txns⟩, hr, he⟩ := Option.map_eq_some_iff.1 hx
      obtain ⟨⟩ := he
      exact h.does_alter trivial (h.answers_pushBack hn) hr
    | insertArchived id row =>
      obtain ⟨⟨r', txns⟩, hr, he⟩ := Option.map_eq_some_iff.1 hx
      obtain ⟨⟩ := he
      exact h.does_inside hn.1 (h.answers_insertArchived hn) hr
    | deleteActive id =>
      obtain ⟨⟨r', txns⟩, hr, he⟩ := Option.map_eq_some_iff.1 hx
      obtain ⟨⟩ := he
      obtain ⟨row, ht, hcopy⟩ := hn
      exact h.does_inside ht (h.answers_deleteActive ⟨row, ht, hcopy⟩) hr
    | archiveTasks sel time =>
      obtain ⟨⟨r', txns⟩, hr, he⟩ := Option.map_eq_some_iff.1 hx
      obtain ⟨⟩ := he
      exact h.does_inside hn (h.answers_archive hn) hr
    | updateWorker id c =>
      obtain ⟨⟨r', txns⟩, hr, he⟩ := Option.map_eq_some_iff.1 hx
      obtain ⟨⟩ := he
      exact h.does_alter trivial (answers_updateWorker _ _ id c) hr
    | deleteWorkers sel =>
      obtain ⟨⟨r', txns⟩, hr, he⟩ := Option.map_eq_some_iff.1 hx
      obtain ⟨⟩ := he
      exact h.does_alter trivial (answers_deleteWorkers _ _ sel) hr
    | retireWorkers sel time =>
      obtain ⟨⟨r', txns⟩, hr, he⟩ := Option.map_eq_some_iff.1 hx
      obtain ⟨⟩ := he
      exact h.does_alter trivial (answers_retireWorkers _ _ sel time) hr
    | _ =>
      obtain ⟨⟩ := hx
      exact h.does_still _

/-- What is known of the uuids and numbers that sessions have drawn. -/
theorem next {e : Entry Cmd Cmd.Resp} (h : Tracked x log)
    (hr : Txns.Recorded txn Write.current x'.txns (log ++ [⟨i, k, e⟩]))
    (hs : x'.txns.committed.Sound) (hk : Kept x.txns.committed x'.txns.committed)
    (hg : ∀ g group', x'.txns.committed.groups.find g = some group' →
      ∃ group, x.txns.committed.groups.find g = some group ∧ group.taskCount ≤ group'.taskCount)
    (ht : x.nextTask ≤ x'.nextTask) (hu : x.nextUuid ≤ x'.nextUuid)
    (hident : ∀ t o, x'.txns.committed.ident t = some o → x.txns.committed.ident t = some o ∨
      t < x'.nextTask ∧ Tasks.fresh (history i log) = some o.uuid ∧
        Tasks.fresh (e :: history i log) = none ∧
        Tasks.drawn (history i log) = some (o.groupId, o.taskId) ∧
        Tasks.drawn (e :: history i log) = none)
    (hshow : ∀ t o, shows e = some (t, o) → x'.txns.committed.ident t = some o)
    (hfresh : ∀ u, Tasks.fresh (e :: history i log) = some u →
      Tasks.fresh (history i log) = some u ∨ x.nextUuid ≤ u ∧ u < x'.nextUuid)
    (hdrawn : ∀ g n, Tasks.drawn (e :: history i log) = some (g, n) →
      Tasks.drawn (history i log) = some (g, n) ∨ ∃ group group',
        x.txns.committed.groups.find g = some group ∧
        x'.txns.committed.groups.find g = some group' ∧
        group.taskCount < n ∧ n ≤ group'.taskCount) : Tracked x' (log ++ [⟨i, k, e⟩]) := by
  have hself : history i (log ++ [⟨i, k, e⟩]) = e :: history i log := history_concat_self _ _ _ _
  have hother : ∀ j, j ≠ i → history j (log ++ [⟨i, k, e⟩]) = history j log :=
    fun j hj => history_concat_ne _ _ _ hj
  constructor
  · exact hr
  · exact hs
  · intro g group' hf
    obtain ⟨group, hf', hle⟩ := hg g group' hf
    exact (h.counts g group hf').trans hle
  · intro t o ho
    rcases hident t o ho with ho | ⟨hlt, hf, -⟩
    · obtain ⟨hlt, hlu⟩ := h.bounds t o ho
      exact ⟨hlt.trans_le ht, hlu.trans_le hu⟩
    · exact ⟨hlt, ((h.fresh i _ hf).1).trans_le hu⟩
  · intro e' he' t o hsh
    rcases List.mem_append.1 he' with he' | he'
    · exact hk.ident t o (h.shown e' he' t o hsh)
    · obtain rfl := List.mem_singleton.1 he'
      exact hshow t o hsh
  · -- a uuid that is drawn is either an old one of the same session or a new one
    intro j u hj
    by_cases hji : j = i
    · subst hji
      rw [hself] at hj
      rcases hfresh u hj with hf | ⟨hle, hlt⟩
      · obtain ⟨hlt, hno, hne⟩ := h.fresh j u hf
        refine ⟨hlt.trans_le hu, ?_, ?_⟩
        · intro t o ho
          rcases hident t o ho with ho | ⟨-, -, hn, -⟩
          · exact hno t o ho
          · rw [hj] at hn
            cases hn
        · intro j' hj'
          rw [hother j' hj']
          exact hne j' hj'
      · refine ⟨hlt, ?_, ?_⟩
        · intro t o ho
          rcases hident t o ho with ho | ⟨-, -, hn, -⟩
          · exact Nat.ne_of_lt ((h.bounds t o ho).2.trans_le hle)
          · rw [hj] at hn
            cases hn
        · intro j' hj' hf
          rw [hother j' hj'] at hf
          exact Nat.lt_irrefl _ ((h.fresh j' u hf).1.trans_le hle)
    · rw [hother j hji] at hj
      obtain ⟨hlt, hno, hne⟩ := h.fresh j u hj
      refine ⟨hlt.trans_le hu, ?_, ?_⟩
      · intro t o ho
        rcases hident t o ho with ho | ⟨-, hf, -⟩
        · exact hno t o ho
        · rintro rfl
          exact hne i (Ne.symm hji) hf
      · intro j' hj'
        by_cases hi' : j' = i
        · subst hi'
          rw [hself]
          intro hf
          rcases hfresh u hf with hf | ⟨hle, -⟩
          · exact hne j' hj' hf
          · exact Nat.lt_irrefl _ (hlt.trans_le hle)
        · rw [hother j' hi']
          exact hne j' hj'
  · -- and so is a number
    intro j g n hj
    by_cases hji : j = i
    · subst hji
      rw [hself] at hj
      rcases hdrawn g n hj with hd | ⟨group, group', hf, hf', hlt, hle⟩
      · obtain ⟨⟨group, hf, hone, hle⟩, hno, hne⟩ := h.drawn j g n hd
        obtain ⟨group', hf', hle'⟩ := hk.groups g group hf
        refine ⟨⟨group', hf', hone, hle.trans hle'⟩, ?_, ?_⟩
        · intro t o ho hg
          rcases hident t o ho with ho | ⟨-, -, -, -, hn⟩
          · exact hno t o ho hg
          · rw [hj] at hn
            cases hn
        · intro j' hj'
          rw [hother j' hj']
          exact hne j' hj'
      · have h₀ := h.counts g group hf
        refine ⟨⟨group', hf', by omega, hle⟩, ?_, ?_⟩
        · intro t o ho hg
          rcases hident t o ho with ho | ⟨-, -, -, -, hn⟩
          · obtain ⟨group₁, hf₁, -, hle₁⟩ := h.sound.counted t o ho
            rw [hg, hf] at hf₁
            obtain rfl := Option.some.inj hf₁
            exact (hle₁.trans_lt hlt).ne
          · rw [hj] at hn
            cases hn
        · intro j' hj' hd
          rw [hother j' hj'] at hd
          obtain ⟨⟨group₁, hf₁, -, hle₁⟩, -⟩ := h.drawn j' g n hd
          obtain rfl := Option.some.inj (hf.symm.trans hf₁)
          exact (hle₁.trans_lt hlt).ne rfl
    · rw [hother j hji] at hj
      obtain ⟨⟨group, hf, hone, hle⟩, hno, hne⟩ := h.drawn j g n hj
      obtain ⟨group', hf', hle'⟩ := hk.groups g group hf
      refine ⟨⟨group', hf', hone, hle.trans hle'⟩, ?_, ?_⟩
      · intro t o ho hg
        rcases hident t o ho with ho | ⟨-, -, -, hd, -⟩
        · exact hno t o ho hg
        · rintro rfl
          subst hg
          exact hne i (Ne.symm hji) hd
      · intro j' hj'
        by_cases hi' : j' = i
        · subst hi'
          rw [hself]
          intro hd
          rcases hdrawn g n hd with hd | ⟨group₁, group₂, hf₁, -, hlt, -⟩
          · exact hne j' hj' hd
          · obtain rfl := Option.some.inj (hf.symm.trans hf₁)
            exact (hle.trans_lt hlt).ne rfl
        · rw [hother j' hi']
          exact hne j' hj'

/-- The numbers that commands draw from the sequences are new. -/
theorem exec_seq (K : History) (hx : c.exec i chance x = some (r, x')) :
    x.nextTask ≤ x'.nextTask ∧ x.nextUuid ≤ x'.nextUuid ∧
      ∀ u, Tasks.fresh (⟨c, r⟩ :: K) = some u →
        Tasks.fresh K = some u ∨ x.nextUuid ≤ u ∧ u < x'.nextUuid := by
  unfold Cmd.exec at hx
  cases hf : chance.fault with
  | some e =>
    rw [hf] at hx
    have hfail : c.failed i e x = (r, x') := Option.some.inj hx
    cases c with
    | newUuid =>
      obtain ⟨⟩ := hfail
      refine ⟨le_rfl, Nat.le_succ _, ?_⟩
      intro u hu
      obtain rfl := Option.some.inj hu
      exact .inr ⟨le_rfl, Nat.lt_succ_self _⟩
    | insertTask =>
      obtain ⟨⟩ := hfail
      exact ⟨le_rfl, le_rfl, fun u hu => by cases hu⟩
    | _ =>
      obtain ⟨⟩ := hfail
      exact ⟨le_rfl, le_rfl, fun u hu => .inl hu⟩
  | none =>
    rw [hf] at hx
    cases c with
    | newUuid =>
      obtain ⟨⟩ := hx
      refine ⟨le_rfl, Nat.le_succ _, ?_⟩
      intro u hu
      obtain rfl := Option.some.inj hu
      exact .inr ⟨le_rfl, Nat.lt_succ_self _⟩
    | insertTask =>
      obtain ⟨⟨r', txns⟩, hr, he⟩ := Option.map_eq_some_iff.1 hx
      obtain ⟨⟩ := he
      exact ⟨Nat.le_succ _, le_rfl, fun u hu => by cases hu⟩
    | addTaskCount | change | changeArchived | assignTask | pushBackTasks | insertArchived
    | deleteActive | archiveTasks | updateWorker | deleteWorkers | retireWorkers =>
      obtain ⟨⟨r', txns⟩, hr, he⟩ := Option.map_eq_some_iff.1 hx
      obtain ⟨⟩ := he
      exact ⟨le_rfl, le_rfl, fun u hu => .inl hu⟩
    | _ =>
      obtain ⟨⟩ := hx
      exact ⟨le_rfl, le_rfl, fun u hu => .inl hu⟩

def draws : Cmd → Bool
  | .addTaskCount _ _ | .insertTask _ => true
  | _ => false

theorem drawn_cons (hc : draws c = false) (r : c.Resp) (K : History) :
    Tasks.drawn (⟨c, r⟩ :: K) = Tasks.drawn K := by
  cases c with
  | addTaskCount | insertTask => cases hc
  | _ => rfl

theorem not_creates (hn : c.sourced K) (hc : draws c = false) (r : c.Resp) :
    ∀ w ∈ landed K ⟨c, r⟩, ¬creates w := by
  have hwrites : ∀ ws : List Write, (∀ w ∈ ws, ¬creates w) →
      ∀ w ∈ (if (txn K).isNone then ws else []), ¬creates w := by
    intro ws h
    split
    · exact h
    · exact List.forall_mem_nil _
  have hone : ∀ w : Write, ¬creates w → ∀ w' ∈ [w], ¬creates w' := by
    intro w hw w' hm
    obtain rfl := List.mem_singleton.1 hm
    exact hw
  cases c with
  | addTaskCount | insertTask => cases hc
  | commit =>
    cases r with
    | error e => exact hwrites [] (List.forall_mem_nil _)
    | ok a =>
      obtain ⟨ws, ht, hb⟩ := hn
      change ∀ w ∈ ((txn K).getD []).reverse, ¬creates w
      rw [ht, Option.getD_some]
      intro w hm
      rw [List.mem_reverse] at hm
      rcases hb with hp | ⟨tasks, rfl⟩ | ⟨id, row, rest, rfl, hp, -⟩
      · exact not_creates_of_plain (hp w hm)
      · exact hone (.archive tasks) (fun h => h) w hm
      · rcases List.mem_append.1 hm with hm | hm
        · exact not_creates_of_plain (hp w hm)
        · rcases List.mem_cons.1 hm with rfl | hm
          · exact fun h => h
          · exact hone (.addArchived id row) (fun h => h) w hm
  | change | changeArchived | assignTask | pushBackTasks | updateWorker | deleteWorkers
  | retireWorkers =>
    apply hwrites
    intro w hm
    exact not_creates_of_plain (writes_plain r trivial w hm)
  | insertArchived | deleteActive | archiveTasks =>
    apply hwrites
    cases r with
    | error e => exact List.forall_mem_nil _
    | ok a => exact hone _ fun h => h
  | _ =>
    apply hwrites
    cases r <;> exact List.forall_mem_nil _

/-- A command that neither counts nor inserts a task leaves the tasks as they are. -/
theorem same (h : Tracked x log) (hn : c.sourced (history i log)) (hc : draws c = false)
    (hd : Does x x' log i k ⟨c, r⟩) :
    x'.txns.committed.Sound ∧ Same x.txns.committed x'.txns.committed := by
  rw [hd.committed]
  exact hd.commits.same h.sound (not_creates hn hc r) fun t task hr => h.read hr

theorem exec_shows (h : Tracked x log) (hn : c.sourced (history i log))
    (hx : c.exec i chance x = some (r, x')) (hc : draws c = false)
    (hs : shows ⟨c, r⟩ = some (t, o)) : x.txns.committed.ident t = some o := by
  unfold Cmd.exec at hx
  cases hf : chance.fault with
  | some e =>
    rw [hf] at hx
    have hfail : c.failed i e x = (r, x') := Option.some.inj hx
    cases c with
    | select q =>
      obtain ⟨⟩ := hfail
      cases q <;> cases hs
    | insertTask => cases hc
    | _ =>
      obtain ⟨⟩ := hfail
      cases hs
  | none =>
    rw [hf] at hx
    cases c with
    | insertTask | addTaskCount => cases hc
    | select q =>
      obtain ⟨⟩ := hx
      rw [h.view_eq hn] at hs
      cases q with
      | task id =>
        change shows ⟨.select (.task id), .ok (x.txns.committed.activeTasks.find id)⟩ = _ at hs
        cases hf : x.txns.committed.activeTasks.find id with
        | none =>
          rw [hf] at hs
          cases hs
        | some task =>
          rw [hf] at hs
          obtain ⟨⟩ := hs
          exact Db.ident_active hf
      | activeByUuid uuid =>
        change shows ⟨.select (.activeByUuid uuid),
          .ok (x.txns.committed.findActiveByUuid uuid)⟩ = _ at hs
        cases hf : x.txns.committed.findActiveByUuid uuid with
        | none =>
          rw [hf] at hs
          cases hs
        | some e =>
          rw [hf] at hs
          obtain ⟨⟩ := hs
          exact Db.ident_active (Table.findWhere_some hf).1
      | archivedByUuid uuid =>
        change shows ⟨.select (.archivedByUuid uuid),
          .ok (x.txns.committed.findArchivedByUuid uuid)⟩ = _ at hs
        cases hf : x.txns.committed.findArchivedByUuid uuid with
        | none =>
          rw [hf] at hs
          cases hs
        | some e =>
          rw [hf] at hs
          obtain ⟨⟩ := hs
          have har := (Table.findWhere_some hf).1
          rw [Db.ident_archived (h.sound.active_none har), har]
          rfl
      | _ => cases hs
    | readyTask uuid =>
      obtain ⟨⟩ := hx
      rw [h.view_eq hn] at hs
      cases hf : x.txns.committed.findReadyTask uuid with
      | none =>
        rw [hf] at hs
        cases hs
      | some e =>
        rw [hf] at hs
        obtain ⟨⟩ := hs
        exact Db.ident_active (Table.findWhere_some hf).1
    | _ => cases hs

theorem keep {e : Entry Cmd Cmd.Resp} (h : Tracked x log)
    (hr : Txns.Recorded txn Write.current x'.txns (log ++ [⟨i, k, e⟩]))
    (hs : x'.txns.committed.Sound) (hsame : Same x.txns.committed x'.txns.committed)
    (ht : x.nextTask ≤ x'.nextTask) (hu : x.nextUuid ≤ x'.nextUuid)
    (hshow : ∀ t o, shows e = some (t, o) → x.txns.committed.ident t = some o)
    (hfresh : ∀ u, Tasks.fresh (e :: history i log) = some u →
      Tasks.fresh (history i log) = some u ∨ x.nextUuid ≤ u ∧ u < x'.nextUuid)
    (hdrawn : ∀ g n, Tasks.drawn (e :: history i log) = some (g, n) →
      Tasks.drawn (history i log) = some (g, n)) : Tracked x' (log ++ [⟨i, k, e⟩]) := by
  apply h.next hr hs hsame.toKept hsame.counts ht hu
  · exact fun t o ho => .inl ((hsame.back t).symm.trans ho)
  · exact fun t o hsh => hsame.ident t o (hshow t o hsh)
  · exact hfresh
  · exact fun g n hd => .inl (hdrawn g n hd)

theorem counted_row {g : GroupId} {group' : Group} (h : Tracked x log)
    (hn : txn (history i log) = none)
    (hx : (Cmd.addTaskCount req time).exec i chance x = some (.ok (some (g, group')), x')) :
    ∃ group, x.txns.committed.groups.find g = some group ∧
      group' = { group with taskCount := group.taskCount + 1, updatedAt := time } := by
  unfold Cmd.exec at hx
  cases hf : chance.fault with
  | some e =>
    rw [hf] at hx
    cases hx
  | none =>
    rw [hf] at hx
    obtain ⟨⟨r', txns⟩, hr, he⟩ := Option.map_eq_some_iff.1 hx
    obtain ⟨⟩ := he
    obtain ⟨-, ⟨e, hr, -⟩ | ⟨a, ws, hr, ha, -⟩⟩ := Txns.execute_cases hr
    · cases hr
    · obtain rfl := Except.ok.inj hr
      rw [h.records.view_none hn] at ha
      obtain ⟨-, ⟨ha, -⟩ | ⟨id, group, hf, ha, -⟩⟩ := addTaskCount_ok ha
      · cases ha
      · obtain ⟨⟩ := ha
        exact ⟨group, hf, rfl⟩

theorem inserted_row {id : TaskId} {row : ActiveTask} (h : Tracked x log)
    (hn : txn (history i log) = none)
    (hx : (Cmd.insertTask task).exec i chance x = some (.ok (id, row), x')) :
    id = x.nextTask ∧ row = task ∧ x'.nextTask = x.nextTask + 1 ∧
      insertConflict x.txns.committed id task = false := by
  unfold Cmd.exec at hx
  cases hf : chance.fault with
  | some e =>
    rw [hf] at hx
    cases hx
  | none =>
    rw [hf] at hx
    obtain ⟨⟨r', txns⟩, hr, he⟩ := Option.map_eq_some_iff.1 hx
    obtain ⟨⟩ := he
    obtain ⟨-, ⟨e, hr, -⟩ | ⟨a, ws, hr, ha, -⟩⟩ := Txns.execute_cases hr
    · cases hr
    · obtain rfl := Except.ok.inj hr
      change (insertTask _ task (x.txns.view i)).result = _ at ha
      rw [h.records.view_none hn] at ha
      obtain ⟨hc, ha, -⟩ := insertTask_ok ha
      obtain ⟨⟩ := ha
      exact ⟨rfl, rfl, rfl, hc⟩

theorem fresh_task (h : Tracked x log) (hn : (Cmd.insertTask task).sourced (history i log))
    (hc : insertConflict x.txns.committed x.nextTask task = false) :
    New x.txns.committed x.nextTask task := by
  obtain ⟨-, hd, hf⟩ := hn
  obtain ⟨hnone, huser⟩ := conflict_free hc
  obtain ⟨hcount, hnum, -⟩ := h.drawn i _ _ hd
  constructor
  · cases hi : x.txns.committed.ident x.nextTask with
    | none => rfl
    | some o => exact (Nat.lt_irrefl _ (h.bounds _ _ hi).1).elim
  · exact (h.fresh i _ hf).2.1
  · exact hnum
  · exact hcount
  · exact huser

theorem exec_insert {r : (Cmd.insertTask task).Resp} (h : Tracked x log)
    (hn : (Cmd.insertTask task).sourced (history i log))
    (hx : (Cmd.insertTask task).exec i chance x = some (r, x')) :
    Tracked x' (log ++ [⟨i, k, .insertTask task, r⟩]) := by
  have hd : Does x x' log i k ⟨.insertTask task, r⟩ := h.does hn hx
  obtain ⟨ht, hu, hfresh⟩ := exec_seq (history i log) hx
  have hc : landed (history i log) ⟨.insertTask task, r⟩ = (Cmd.insertTask task).writes r := by
    change (if (txn (history i log)).isNone then _ else _) = _
    rw [if_pos (by rw [hn.1]; rfl)]
  have hcom := hd.committed
  rw [hc] at hcom
  cases r with
  | error e =>
    have heq : x'.txns.committed = x.txns.committed := hcom
    apply h.keep hd.records _ _ ht hu _ hfresh
    · exact fun _ _ hg => by cases hg
    · rw [heq]
      exact h.sound
    · rw [heq]
      exact Same.refl _
    · exact fun _ _ hs => by cases hs
  | ok e =>
    obtain ⟨id, row⟩ := e
    obtain ⟨rfl, rfl, hnext, hconf⟩ := h.inserted_row hn.1 hx
    have hcom' : x'.txns.committed = (Write.addActive x.nextTask row).apply x.txns.committed := hcom
    obtain ⟨hs, hkept⟩ := insert_all h.sound (h.fresh_task hn hconf)
    have hi := ident_insert x.txns.committed x.nextTask
    rw [← hcom'] at hs hkept
    apply h.next hd.records hs hkept _ ht hu
    · intro t o ho
      rw [hcom', hi] at ho
      split at ho
      next he =>
        obtain rfl := Option.some.inj ho
        refine .inr ⟨?_, hn.2.2, rfl, hn.2.1, rfl⟩
        rw [he, hnext]
        exact Nat.lt_succ_self _
      next => exact .inl ho
    · intro t o hsh
      obtain ⟨⟩ := hsh
      rw [hcom', hi, if_pos rfl]
    · exact hfresh
    · exact fun _ _ hg => by cases hg
    · rw [hcom']
      exact fun g group hg => ⟨group, hg, le_rfl⟩

theorem exec_count {r : (Cmd.addTaskCount req time).Resp} (h : Tracked x log)
    (hn : Idle (history i log)) (hx : (Cmd.addTaskCount req time).exec i chance x = some (r, x')) :
    Tracked x' (log ++ [⟨i, k, .addTaskCount req time, r⟩]) := by
  have hd : Does x x' log i k ⟨.addTaskCount req time, r⟩ := h.does hn hx
  obtain ⟨ht, hu, hfresh⟩ := exec_seq (history i log) hx
  have hshow : ∀ t o, shows ⟨.addTaskCount req time, r⟩ = some (t, o) →
      x.txns.committed.ident t = some o := fun _ _ hs => by cases hs
  have hc : landed (history i log) ⟨.addTaskCount req time, r⟩ =
      (Cmd.addTaskCount req time).writes r := by
    change (if (txn (history i log)).isNone then _ else _) = _
    rw [if_pos (by rw [hn.1]; rfl)]
  have hcom := hd.committed
  rw [hc] at hcom
  have hkeep : ∀ r', r = r' → (Cmd.addTaskCount req time).writes r' = [] →
      Tasks.drawn (⟨.addTaskCount req time, r'⟩ :: history i log) = Tasks.drawn (history i log) →
      Tracked x' (log ++ [⟨i, k, .addTaskCount req time, r⟩]) := by
    rintro _ rfl hw hdr
    rw [hw] at hcom
    have heq : x'.txns.committed = x.txns.committed := hcom
    apply h.keep hd.records _ _ ht hu hshow hfresh
    · intro g n hg
      rw [← hdr]
      exact hg
    · rw [heq]
      exact h.sound
    · rw [heq]
      exact Same.refl _
  cases r with
  | error e => exact hkeep _ rfl rfl rfl
  | ok found =>
    cases found with
    | none => exact hkeep _ rfl rfl rfl
    | some e =>
      obtain ⟨id, group'⟩ := e
      have hcom' : x'.txns.committed = (Write.addCount id time).apply x.txns.committed := hcom
      obtain ⟨hs, hsame⟩ := count_all h.sound id time
      rw [← hcom'] at hs hsame
      apply h.next hd.records hs hsame.toKept hsame.counts ht hu
      · exact fun t o ho => .inl ((hsame.back t).symm.trans ho)
      · exact fun t o hs => hsame.ident t o (hshow t o hs)
      · exact hfresh
      · intro g n hg
        obtain ⟨⟩ := hg
        obtain ⟨group, hf, rfl⟩ := h.counted_row hn.1 hx
        refine .inr ⟨group, _, hf, ?_, lt_add_one group.taskCount, le_rfl⟩
        rw [hcom']
        change (x.txns.committed.groups.update id _).find id = _
        rw [Table.find_update_self, hf, Option.map_some]

theorem exec (h : Tracked x log) (hn : c.sourced (history i log))
    (hx : c.exec i chance x = some (r, x')) : Tracked x' (log ++ [⟨i, k, c, r⟩]) := by
  cases hc : draws c with
  | true =>
    cases c with
    | addTaskCount => exact h.exec_count hn hx
    | insertTask => exact h.exec_insert hn hx
    | _ => cases hc
  | false =>
    have hd : Does x x' log i k ⟨c, r⟩ := h.does hn hx
    obtain ⟨ht, hu, hfresh⟩ := exec_seq (history i log) hx
    obtain ⟨hs, hsame⟩ := h.same hn hc hd
    apply h.keep hd.records hs hsame ht hu _ hfresh
    · intro g n hg
      rw [drawn_cons hc] at hg
      exact hg
    · exact fun t o hsh => h.exec_shows hn hx hc hsh

theorem initial (db : Db) (clock : Instant) : Tracked (initial db clock).shared [] := by
  have hnone : ∀ t, (untasked db).ident t = none := fun _ => rfl
  have hgroup : ∀ g group, (untasked db).groups.find g = some group → group.taskCount = 0 := by
    intro g group hg
    change (db.groups.mapRows _).find g = some group at hg
    rw [Table.find_mapRows] at hg
    obtain ⟨group', -, rfl⟩ := Option.map_eq_some_iff.1 hg
    rfl
  constructor
  · exact Txns.Recorded.initial _ rfl
  · constructor
    · exact fun _ _ h => by cases h
    · exact fun t _ _ _ h => by cases (hnone t).symm.trans h
    · exact fun t _ _ _ h => by cases (hnone t).symm.trans h
    · exact fun t _ h => by cases (hnone t).symm.trans h
    · exact fun t _ h => by cases (hnone t).symm.trans h
    · exact fun _ _ h => by cases h
  · exact fun g group hg => (hgroup g group hg).ge
  · exact fun t _ h => by cases (hnone t).symm.trans h
  · exact fun e he => by cases he
  · exact fun i u h => by cases h
  · exact fun i g n h => by cases h

theorem of_env (h : Tracked x log) (hr : Txns.Recorded txn Write.current x'.txns log)
    (hs : x'.txns.committed.Sound) (hk : Kept x.txns.committed x'.txns.committed)
    (hb : ∀ t, x'.txns.committed.ident t = x.txns.committed.ident t)
    (hg : ∀ g group, x'.txns.committed.groups.find g = some group → 0 ≤ group.taskCount)
    (ht : x'.nextTask = x.nextTask := by rfl) (hu : x'.nextUuid = x.nextUuid := by rfl) :
    Tracked x' log := by
  constructor
  · exact hr
  · exact hs
  · exact hg
  · intro t o ho
    rw [ht, hu]
    exact h.bounds t o ((hb t).symm.trans ho)
  · exact fun e he t o hsh => hk.ident t o (h.shown e he t o hsh)
  · intro i u hf
    obtain ⟨hlt, hno, hne⟩ := h.fresh i u hf
    rw [hu]
    exact ⟨hlt, fun t o ho => hno t o ((hb t).symm.trans ho), hne⟩
  · intro i g n hd
    obtain ⟨⟨group, hf, hone, hle⟩, hno, hne⟩ := h.drawn i g n hd
    obtain ⟨group', hf', hle'⟩ := hk.groups g group hf
    exact ⟨⟨group', hf', hone, hle.trans hle'⟩,
      fun t o ho => hno t o ((hb t).symm.trans ho), hne⟩

theorem touched {w : Write} {row : Row} (h : Tracked x log) (hw : w.plain) (hrow : w.rows = [row])
    (hl : x.unlocked row = true) :
    Tracked { x with txns := { x.txns with committed := w.apply x.txns.committed } } log := by
  have hsame := same_plain hw x.txns.committed
  apply h.of_env _ (Sound.plain h.sound hw) hsame.toKept hsame.back
  · intro g group' hg
    obtain ⟨group, hg', hle⟩ := hsame.counts g group' hg
    exact (h.counts g group hg').trans hle
  · constructor
    · exact h.records.opened
    · apply h.records.guarded.commits
      intro i ws w' hi hw' hc
      apply w'.current_apply w _ _ hc
      intro k hk hk'
      rw [hrow, List.mem_singleton] at hk'
      subst hk'
      have hfree := List.all_eq_true.1 hl _ (Table.mem_rows.2 hi)
      have hno := List.all_eq_true.1 hfree w' hw'
      simp only [decide_eq_true_eq] at hno
      exact hno hk

/-- What was written stays to be written when only accounts and workers change. -/
theorem current_of_tasks {w : Write} {db db' : Db} (ha : db'.activeTasks = db.activeTasks)
    (har : db'.archivedTasks = db.archivedTasks) (h : w.current db) : w.current db' := by
  cases w with
  | change | changeArchived | addArchived | archive =>
    simp only [Write.current, ha, har] at h ⊢
    exact h
  | _ => trivial

theorem kept_of_tables {db db' : Db} (ha : db'.activeTasks = db.activeTasks)
    (har : db'.archivedTasks = db.archivedTasks) (hu : db'.users = db.users)
    (hg : db'.groups = db.groups) : Kept db db' := by
  constructor
  · intro t o ho
    rw [Db.ident, Db.row, ha, har]
    exact ho
  · rw [har]
    exact fun _ row hr => ⟨row, hr⟩
  · rw [hu]
    exact fun _ user hu => ⟨user, hu⟩
  · rw [hg]
    exact fun _ group hg => ⟨group, hg, le_rfl⟩

theorem accounts_kept {db : Db} (h : accountsKept db users groups = true)
    (userGroup : Table (UserId × GroupId) UserGroupRole) :
    Kept db { db with users, groups, userGroup } := by
  simp only [accountsKept, Bool.and_eq_true, List.all_eq_true, Option.any_eq_true,
    Bool.or_eq_true, decide_eq_true_eq] at h
  obtain ⟨⟨hu, hg⟩, -⟩ := h
  constructor
  · exact fun _ _ ho => ho
  · exact fun _ row hr => ⟨row, hr⟩
  · intro id user hf
    obtain ⟨user', hf', -⟩ := hu (id, user) (Table.mem_rows.2 hf)
    exact ⟨user', hf'⟩
  · intro id group hf
    obtain ⟨group', hf', -, hc⟩ := hg (id, group) (Table.mem_rows.2 hf)
    exact ⟨group', hf', hc.ge⟩

theorem accounts_counts {db : Db} (h : accountsKept db users groups = true)
    (hc : ∀ g group, db.groups.find g = some group → 0 ≤ group.taskCount) (g : GroupId)
    (group : Group) (hf : groups.find g = some group) : 0 ≤ group.taskCount := by
  simp only [accountsKept, Bool.and_eq_true, List.all_eq_true, Option.any_eq_true,
    Bool.or_eq_true, decide_eq_true_eq] at h
  obtain ⟨⟨-, hg⟩, hnew⟩ := h
  rcases hnew (g, group) (Table.mem_rows.2 hf) with hold | hzero
  · obtain ⟨group', hf'⟩ := Option.isSome_iff_exists.1 hold
    obtain ⟨group'', hf'', -, he⟩ := hg (g, group') (Table.mem_rows.2 hf')
    obtain rfl := Option.some.inj (hf.symm.trans hf'')
    rw [he]
    exact hc g group' hf'
  · exact hzero.ge

theorem env (e : Env) (h : Tracked x log) (hx : e.run x = some x') : Tracked x' log := by
  have hrec : ∀ db : Db, db.activeTasks = x.txns.committed.activeTasks →
      db.archivedTasks = x.txns.committed.archivedTasks →
      Txns.Recorded txn Write.current { x.txns with committed := db } log := by
    intro db ha har
    refine ⟨h.records.opened, h.records.guarded.commits ?_⟩
    exact fun _ _ _ _ _ hc => current_of_tasks ha har hc
  cases e with
  | tick =>
    obtain ⟨⟩ := hx
    exact ⟨h.records, h.sound, h.counts, h.bounds, h.shown, h.fresh, h.drawn⟩
  | workers table roles =>
    obtain ⟨⟩ := hx
    refine h.of_env ?_ ?_ ?_ (fun _ => rfl) h.counts
    · exact hrec _ rfl rfl
    · exact h.sound.of_ident (fun _ => rfl) h.sound.apart h.sound.done
        (fun _ user hu => ⟨user, hu⟩) (fun _ group hg => ⟨group, hg, le_rfl⟩)
    · exact kept_of_tables rfl rfl rfl rfl
  | accounts users groups userGroup =>
    simp only [Env.run] at hx
    split at hx
    next ha =>
      obtain ⟨⟩ := hx
      have hkept := accounts_kept ha userGroup
      refine h.of_env ?_ ?_ hkept (fun _ => rfl) (accounts_counts ha h.counts)
      · exact hrec _ rfl rfl
      · exact h.sound.of_ident (fun _ => rfl) h.sound.apart h.sound.done hkept.users hkept.groups
    next => cases hx
  | touchActive id =>
    simp only [Env.run] at hx
    split at hx
    next hl =>
      obtain ⟨⟩ := hx
      exact h.touched trivial rfl hl
    next => cases hx
  | touchArchived id =>
    simp only [Env.run] at hx
    split at hx
    next hl =>
      obtain ⟨⟩ := hx
      exact h.touched trivial rfl hl
    next => cases hx

theorem env_kept {e : Env} (hx : e.run x = some x') :
    Kept x.txns.committed x'.txns.committed := by
  cases e with
  | tick | workers =>
    obtain ⟨⟩ := hx
    exact kept_of_tables rfl rfl rfl rfl
  | accounts users groups userGroup =>
    simp only [Env.run] at hx
    split at hx
    next ha =>
      obtain ⟨⟩ := hx
      exact accounts_kept ha userGroup
    next => cases hx
  | touchActive id =>
    simp only [Env.run] at hx
    split at hx
    next =>
      obtain ⟨⟩ := hx
      exact (same_plain (w := .change id .touch x.clock) trivial _).toKept
    next => cases hx
  | touchArchived id =>
    simp only [Env.run] at hx
    split at hx
    next =>
      obtain ⟨⟩ := hx
      exact (same_plain (w := .changeArchived id .touch x.clock) trivial _).toKept
    next => cases hx

theorem exec_kept (k : Call) (h : Tracked x log) (hn : c.sourced (history i log))
    (hx : c.exec i chance x = some (r, x')) : Kept x.txns.committed x'.txns.committed := by
  have hd : Does x x' log i k ⟨c, r⟩ := h.does hn hx
  rw [hd.committed]
  exact hd.commits.kept h.sound fun _ _ hr => h.read hr

end Tracked

theorem tracked {ok : State → Act Call Chance Env → Prop}
    (hp : Path (Sessions.step system) ok (initial db clock) as s) : Tracked s.shared s.log := by
  apply log_invariant program_sourced program_again hp rfl rfl (Tracked.initial db clock)
  · exact fun e x x' log h hx => h.env e hx
  · exact fun s i k chance c p r x _ _ _ hn hx h => h.exec hn hx

theorem step_kept {ok : State → Act Call Chance Env → Prop}
    (hp : Path (Sessions.step system) ok (initial db clock) as s)
    (hs : Sessions.step system s a = some s') :
    Kept s.shared.txns.committed s'.shared.txns.committed := by
  cases Sessions.step_cases hs with
  | call => exact Kept.refl _
  | env hx => exact Tracked.env_kept hx
  | @step _ _ _ k _ _ _ hi hx => exact (tracked hp).exec_kept k ((traced hp).knows _ _ hi).1 hx

theorem path_kept {ok : State → Act Call Chance Env → Prop}
    (hp : Path (Sessions.step system) ok (initial db clock) as s)
    (hq : Path (Sessions.step system) ok s bs s') :
    Kept s.shared.txns.committed s'.shared.txns.committed := by
  induction hq with
  | nil => exact Kept.refl _
  | snoc hq _ hs ih => exact ih.trans (step_kept (hp.trans hq) hs)

end Tasks
end Mitosis
