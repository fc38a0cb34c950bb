import Mitosis.Proof.Alone
import Mitosis.Proof.Eligible
import Mitosis.Proof.Queues

namespace Mitosis
set_option autoImplicit true

/-- What a Commit that fails must leave as it was. -/
structure Untouched (s s' : Infra) (w : WorkerId) (t : TaskId) : Prop where
  task : s'.db.activeTasks.find t = s.db.activeTasks.find t
  worker : s'.db.workers.find w = s.db.workers.find w
  taskChan : s'.taskChan = s.taskChan
  heartbeatChan : s'.heartbeatChan = s.heartbeatChan

namespace Infra

def unregisters (s : Infra) (w : WorkerId) : Prop :=
  (∀ picks, (s.dispatcher.handleOps s.taskChan picks).registered w = false) ∧
  ∀ time, (s.heartbeatChan.foldl (fun q op => q.handleOp op time) s.heartbeatQueue).workers.find w =
    none

def queuesForAll (s : Infra) (t : TaskId) (task : ActiveTask) : Prop :=
  ∀ w, s.db.eligible w task.groupId task.tags = true → ∀ picks,
    (s.dispatcher.handleOps s.taskChan picks).queued w t = some task.priority

end Infra

/-- What a Commit that succeeds must have done. -/
structure Concluded (s s' : Infra) (w : WorkerId) (workerUuid : Uuid) (t : TaskId)
    (res : TaskResultSpec) : Prop where
  archived : ∃ row, s.db.archivedTasks.find t = none ∧ s'.db.archivedTasks.find t = some row ∧
    row.result = some res ∧ row.reporterUuid = some workerUuid ∧
    ∀ t' row', s'.db.archivedTasks.find t' = some row' → row'.uuid = row.uuid → t' = t
  removed : s'.db.activeTasks.find t = none
  worker : ∃ worker, s.db.workers.find w = some worker ∧
    match worker.state with
    | .normal => ∃ worker', s'.db.workers.find w = some worker' ∧ worker'.assignedTaskId = none
    | .gracefulShutdown => s'.db.workers.find w = none ∧ s'.unregisters w
  downstream : ∀ task uuid, s.db.activeTasks.find t = some task →
    task.downstreamTaskUuid = some uuid → ∃ t' task', s'.db.activeTasks.find t' = some task' ∧
      task'.uuid = uuid ∧ task'.state = .ready ∧ s'.queuesForAll t' task'

/-- A Commit changes nothing if it fails, and is complete if it succeeds. -/
def AllOrNothing (s s' : Infra) (w : WorkerId) (workerUuid : Uuid) (t : TaskId)
    (res : TaskResultSpec) : Except Error Reply → Prop
  | .error _ => Untouched s s' w t
  | .ok _ => Concluded s s' w workerUuid t res

def fails (faults : List (Option DbErr)) (n : Nat) : Bool := (faults[n]?.join).isSome

namespace Infra

def durable (s : Infra) (faults : List (Option DbErr)) (w : WorkerId) (workerUuid : Uuid)
    (t : TaskId) (res : TaskResultSpec) (task : ActiveTask) : Bool :=
  decide (task.assignedWorker = some w) &&
    decide (task.state = .finished ∨ task.state = .cancelled) &&
    !fails faults 1 && !fails faults 2 &&
    !s.db.archiveConflict t (Service.committedTask task res workerUuid s.clock)

def triggers (s : Infra) (faults : List (Option DbErr)) (w : WorkerId) (worker : Worker)
    (uuid : Uuid) : Bool :=
  !fails faults 4 && !fails faults 6 && !fails faults 7 && s.taskRx &&
    (s.db.findPendingTask uuid).any fun p =>
      (s.db.eligibleWorkers .anyWriteAdmin p.2.groupId p.2.tags).all fun w' =>
        decide (w' = w ∧ worker.state = .gracefulShutdown) ||
          (s.dispatcher.handleOps s.taskChan []).registered w'

/-- Once the transaction of the Commit is durable, none of the commands behind it fails. -/
def commitsWhole (s : Infra) (faults : List (Option DbErr)) (w : WorkerId) (workerUuid : Uuid)
    (t : TaskId) (res : TaskResultSpec) : Bool :=
  match s.db.activeTasks.find t, s.db.workers.find w with
  | some task, some worker => !s.durable faults w workerUuid t res task ||
    task.downstreamTaskUuid.all (s.triggers faults w worker) &&
      (decide (worker.state = .normal) || s.taskRx && s.heartbeatRx)
  | _, _ => true

end Infra

@[simp] theorem fails_none (faults : List (Option DbErr)) : fails (none :: faults) 0 = false := rfl

@[simp] theorem fails_some (e : DbErr) (faults : List (Option DbErr)) :
    fails (some e :: faults) 0 = true := rfl

@[simp] theorem fails_cons (fault : Option DbErr) (faults : List (Option DbErr)) (n : Nat) :
    fails (fault :: faults) (n + 1) = fails faults n := rfl

theorem Infra.commitsWhole_of {s : Infra} (hf : s.db.activeTasks.find t = some task)
    (hd : ∀ worker, s.db.workers.find w = some worker →
      s.durable faults w workerUuid t res task = false) :
    s.commitsWhole faults w workerUuid t res = true := by
  simp only [commitsWhole, hf]
  cases hw : s.db.workers.find w with
  | none => rfl
  | some worker => simp only [hd worker hw, Bool.not_false, Bool.true_or]

namespace Service
variable {s s' : Infra} {faults rest : List (Option DbErr)}

def concludeCommit (w : WorkerId) (t : TaskId) (next : Option Uuid) (st : WorkerState) :
    Service Unit := do
  ignore (removeTask t)
  triggerDownstream next
  unregisterGraceful w st

/-- The Commit fails and changes nothing, or its transaction is durable. -/
theorem reportCommit_runs {r : Except Error Unit}
    (h : runs (reportCommit w wu t task res s.clock) faults s = some (r, (rest, s'))) :
    ((∃ e, r = .error e) ∧ s = s' ∧ ∀ fault fault' worker, s.db.workers.find w = some worker →
      s.durable (fault :: fault' :: faults) w wu t res task = false) ∨
    ∃ worker rest₁ db, s.db.workers.find w = some worker ∧
      (task.state = .finished ∨ task.state = .cancelled) ∧ faults = none :: rest₁ ∧
      Db.commitTask w t (committedTask task res wu s.clock) s.clock s.db =
        .ok (worker.state, db) ∧
      runs (concludeCommit w t task.downstreamTaskUuid worker.state) rest₁ { s with db } =
        some (r, (rest, s')) := by
  rw [reportCommit] at h
  split at h
  next hst =>
    obtain ⟨⟩ := h
    refine .inl ⟨⟨_, rfl⟩, rfl, fun _ _ _ _ => ?_⟩
    simp only [Infra.durable, not_or.2 hst, decide_false, Bool.and_false, Bool.false_and]
  next hst =>
    have hst : task.state = .finished ∨ task.state = .cancelled := by
      by_contra hn
      exact hst (not_or.1 hn)
    obtain ⟨ws, faults₁, s₁, h₁, h⟩ | ⟨e, h₁, rfl⟩ := runs_bind h
    · obtain ⟨fault, rfl, hx⟩ := runs_issue h₁
      obtain ⟨_, hr, -⟩ | ⟨_, db, rfl, hq, hr, rfl⟩ := Cmd.exec_write hx
      · cases hr
      · obtain ⟨⟩ := hr
        obtain ⟨-, worker, hw, rfl, -⟩ := Db.commitTask_ok hq
        exact .inr ⟨worker, faults₁, db, hw, hst, rfl, hq, h⟩
    · obtain ⟨fault, rfl, hx⟩ := runs_issue h₁
      refine .inl ⟨⟨e, rfl⟩, ?_, fun f f' worker hw => ?_⟩
      · obtain ⟨_, -, rfl⟩ | ⟨_, _, -, -, hr, -⟩ := Cmd.exec_write hx
        · rfl
        · cases hr
      · cases fault with
        | some e' => simp only [Infra.durable, fails_cons, fails_some, Bool.not_true,
            Bool.and_false, Bool.false_and]
        | none =>
          cases hc : s.db.archiveConflict t (committedTask task res wu s.clock) with
          | true => simp only [Infra.durable, hc, Bool.not_true, Bool.and_false]
          | false =>
            obtain ⟨_, _, hq⟩ := Db.commitTask_run hc hw s.clock
            simp only [Cmd.exec, Write.run, hq] at hx
            cases hx

/-- A Commit fails before its transaction and changes nothing, or the transaction is durable. -/
theorem reportTask_commit_runs {r : Except Error (Option PresignedUrl)}
    (h : runs (reportTask w wu t (.commit res)) faults s = some (r, (rest, s'))) :
    ((∃ e, r = .error e) ∧ s = s' ∧ s.commitsWhole faults w wu t res = true) ∨
    ∃ task worker fault rest₁ db r', s.db.activeTasks.find t = some task ∧
      s.db.workers.find w = some worker ∧ s.durable faults w wu t res task = true ∧
      faults = fault :: none :: none :: rest₁ ∧
      Db.commitTask w t (committedTask task res wu s.clock) s.clock s.db =
        .ok (worker.state, db) ∧
      runs (concludeCommit w t task.downstreamTaskUuid worker.state) rest₁ { s with db } =
        some (r', (rest, s')) ∧ r = r'.map fun _ => none := by
  obtain ⟨time, _, _, h₁, h⟩ | ⟨e, h₁, -⟩ := runs_bind h
  swap
  · obtain ⟨_, _, hr, _⟩ := runs_now h₁
    cases hr
  obtain ⟨fault, rfl, hr, rfl⟩ := runs_now h₁
  obtain ⟨⟩ := hr
  obtain ⟨found, _, _, h₁, h⟩ | ⟨e, h₁, rfl⟩ := runs_bind h
  swap
  · obtain ⟨rfl, ⟨e', rfl, -⟩ | ⟨-, hr⟩⟩ := runs_select h₁
    · refine .inl ⟨⟨e, rfl⟩, rfl, ?_⟩
      cases hf : s.db.activeTasks.find t with
      | none => simp only [Infra.commitsWhole, hf]
      | some task =>
        refine Infra.commitsWhole_of hf fun _ _ => ?_
        simp only [Infra.durable, fails_cons, fails_some, Bool.not_true, Bool.and_false,
          Bool.false_and]
    · cases hr
  obtain ⟨rfl, ⟨e', -, hr⟩ | ⟨rfl, hr⟩⟩ := runs_select h₁
  · cases hr
  obtain rfl : found = _ := Except.ok.inj hr
  obtain ⟨task, faults₁, _, h₁, h⟩ | ⟨e, h₁, rfl⟩ := runs_bind h
  swap
  · obtain ⟨-, rfl, hr⟩ := runs_okOr h₁
    refine .inl ⟨⟨e, rfl⟩, rfl, ?_⟩
    cases hf : s.db.activeTasks.find t with
    | none => simp only [Infra.commitsWhole, hf]
    | some task =>
      simp only [Select.eval, hf] at hr
      cases hr
  obtain ⟨rfl, rfl, hr⟩ := runs_okOr h₁
  cases hf : s.db.activeTasks.find t with
  | none =>
    simp only [Select.eval, hf] at hr
    cases hr
  | some task' =>
    simp only [Select.eval, hf, Option.elim_some, Except.ok.injEq] at hr
    subst hr
    split at h
    next ha =>
      obtain ⟨⟩ := h
      refine .inl ⟨⟨_, rfl⟩, rfl, Infra.commitsWhole_of hf fun _ _ => ?_⟩
      simp only [Infra.durable, ha, decide_false, Bool.false_and]
    next ha =>
      have hw' : task.assignedWorker = some w := not_not.1 ha
      have hdur {worker db rest₁} (hst : task.state = .finished ∨ task.state = .cancelled)
          (hq : Db.commitTask w t (committedTask task res wu s.clock) s.clock s.db =
            .ok (worker, db)) :
          s.durable (fault :: none :: none :: rest₁) w wu t res task = true := by
        simp only [Infra.durable, hw', hst, (Db.commitTask_ok hq).1, fails_cons, fails_none,
          decide_true, Bool.not_false, Bool.and_self]
      obtain ⟨u, _, _, h₁, h⟩ | ⟨e, h₁, rfl⟩ := runs_bind h
      · obtain ⟨⟩ := h
        obtain ⟨⟨_, hr⟩, -⟩ | ⟨worker, rest₁, db, hw, hst, rfl, hq, h⟩ := reportCommit_runs h₁
        · cases hr
        · exact .inr ⟨task, worker, fault, rest₁, db, _, rfl, hw, hdur hst hq, rfl, hq, h, rfl⟩
      · obtain ⟨-, rfl, hd⟩ | ⟨worker, rest₁, db, hw, hst, rfl, hq, h⟩ := reportCommit_runs h₁
        · exact .inl ⟨⟨e, rfl⟩, rfl, Infra.commitsWhole_of hf (hd _ _)⟩
        · exact .inr ⟨task, worker, fault, rest₁, db, _, rfl, hw, hdur hst hq, rfl, hq, h, rfl⟩

theorem workerTriggerPendingTask_runs {r : Except Error Unit}
    (h : runs (workerTriggerPendingTask uuid) faults s = some (r, (rest, s'))) :
    ((∃ e, r = .error e) ∧ (∀ t, s.db.activeTasks.find t = none →
        s'.db.activeTasks.find t = none) ∧
      (fails faults 0 = true ∨ fails faults 2 = true ∨ fails faults 3 = true ∨
        s.taskRx = false ∨ s.db.findPendingTask uuid = none)) ∨
    ∃ t task db, s.db.findPendingTask uuid = some (t, task) ∧
      Db.updateTask t (fun t => { t with state := .ready, updatedAt := s.clock }) s.db =
        .ok ({ task with state := .ready, updatedAt := s.clock }, db) ∧
      r = .ok () ∧ (∃ f f', faults = none :: f :: none :: none :: f' :: rest) ∧
      s.taskRx = true ∧ s' = { s with
        db
        taskChan := s.taskChan ++ [.batchAddTask
          (db.eligibleWorkers .anyWriteAdmin task.groupId task.tags) t task.priority] } := by
  obtain ⟨found, _, _, h₁, h⟩ | ⟨e, h₁, rfl⟩ := runs_bind h
  swap
  · obtain ⟨rfl, ⟨e', rfl, -⟩ | ⟨-, hr⟩⟩ := runs_select h₁
    · exact .inl ⟨⟨e, rfl⟩, fun _ => id, .inl rfl⟩
    · cases hr
  obtain ⟨rfl, ⟨e', -, hr⟩ | ⟨rfl, hr⟩⟩ := runs_select h₁
  · cases hr
  obtain rfl : found = _ := Except.ok.inj hr
  obtain ⟨row, faults₁, _, h₁, h⟩ | ⟨e, h₁, rfl⟩ := runs_bind h
  swap
  · obtain ⟨-, rfl, hr⟩ := runs_okOr h₁
    refine .inl ⟨⟨e, rfl⟩, fun _ => id, .inr (.inr (.inr (.inr ?_)))⟩
    cases hf : s.db.findPendingTask uuid with
    | none => rfl
    | some =>
      simp only [Select.eval, hf] at hr
      cases hr
  obtain ⟨rfl, rfl, hr⟩ := runs_okOr h₁
  obtain ⟨t, task⟩ := row
  have hf : s.db.findPendingTask uuid = some (t, task) := by
    cases hf : s.db.findPendingTask uuid with
    | none =>
      simp only [Select.eval, hf] at hr
      cases hr
    | some =>
      simp only [Select.eval, hf, Option.elim_some, Except.ok.injEq] at hr
      rw [hr]
  obtain ⟨time, _, _, h₁, h⟩ | ⟨e, h₁, -⟩ := runs_bind h
  swap
  · obtain ⟨_, _, hr, _⟩ := runs_now h₁
    cases hr
  obtain ⟨f, rfl, hr, rfl⟩ := runs_now h₁
  obtain ⟨⟩ := hr
  have hrow := (Db.findPendingTask_some hf).1
  have hq := Db.updateTask_run hrow fun t => { t with state := .ready, updatedAt := s.clock }
  obtain ⟨task', faults₂, s₂, h₁, h⟩ | ⟨e, h₁, rfl⟩ := runs_bind h
  swap
  · obtain ⟨fault, rfl, hx⟩ := runs_issue h₁
    cases fault with
    | some e' =>
      obtain ⟨⟩ := hx
      exact .inl ⟨⟨_, rfl⟩, fun _ => id, .inr (.inl rfl)⟩
    | none =>
      simp only [Cmd.exec, Write.run, hq] at hx
      cases hx
  obtain ⟨fault, rfl, hx⟩ := runs_issue h₁
  cases fault with
  | some =>
    cases hx
  | none =>
    simp only [Cmd.exec, Write.run, hq] at hx
    obtain ⟨⟩ := hx
    have hnone : ∀ t', s.db.activeTasks.find t' = none → (s.db.activeTasks.update t fun t =>
        { t with state := .ready, updatedAt := s.clock }).find t' = none := by
      intro t' hn
      rw [Table.find_update, hn]
      split <;> rfl
    obtain ⟨ws, _, _, h₁, h⟩ | ⟨e, h₁, rfl⟩ := runs_bind h
    · obtain ⟨rfl, ⟨e', -, hr⟩ | ⟨rfl, hr⟩⟩ := runs_select h₁
      · cases hr
      obtain rfl : ws = _ := Except.ok.inj hr
      obtain ⟨f', rfl, ⟨hrx, rfl, rfl⟩ | ⟨hrx, rfl, rfl⟩⟩ := runs_sendTask h
      · exact .inr ⟨t, task, _, hf, hq, rfl, ⟨f, f', rfl⟩, hrx, rfl⟩
      · exact .inl ⟨⟨_, rfl⟩, hnone, .inr (.inr (.inr (.inl hrx)))⟩
    · obtain ⟨rfl, ⟨e', rfl, -⟩ | ⟨-, hr⟩⟩ := runs_select h₁
      · exact .inl ⟨⟨e, rfl⟩, hnone, .inr (.inr (.inl rfl))⟩
      · cases hr

theorem unregisterGraceful_runs {r : Except Error Unit}
    (h : runs (unregisterGraceful w st) faults s = some (r, (rest, s'))) :
    s.db = s'.db ∧ ((∃ e, r = .error e) ∧
        (st = .gracefulShutdown ∧ (s.taskRx && s.heartbeatRx) = false) ∨
      r = .ok () ∧ (st = .normal ∧ s = s' ∨ st = .gracefulShutdown ∧ s.taskRx = true ∧
        s.heartbeatRx = true ∧ s' = { s with
          taskChan := s.taskChan ++ [.unregisterWorker w]
          heartbeatChan := s.heartbeatChan ++ [.unregisterWorker w] })) := by
  cases st with
  | normal =>
    obtain ⟨⟩ := h
    exact ⟨rfl, .inr ⟨rfl, .inl ⟨rfl, rfl⟩⟩⟩
  | gracefulShutdown =>
    obtain ⟨u, _, _, h₁, h⟩ | ⟨e, h₁, rfl⟩ := runs_bind h
    · obtain ⟨_, rfl, ⟨hrx, -, rfl⟩ | ⟨-, hr, -⟩⟩ := runs_sendTask h₁
      · obtain ⟨_, rfl, ⟨hrx', rfl, rfl⟩ | ⟨hrx', rfl, rfl⟩⟩ := runs_sendHeartbeat h
        · exact ⟨rfl, .inr ⟨rfl, .inr ⟨rfl, hrx, hrx', rfl⟩⟩⟩
        · refine ⟨rfl, .inl ⟨⟨_, rfl⟩, rfl, ?_⟩⟩
          rw [show s.heartbeatRx = false from hrx', Bool.and_false]
      · cases hr
    · obtain ⟨_, rfl, ⟨-, hr, -⟩ | ⟨hrx, -, rfl⟩⟩ := runs_sendTask h₁
      · cases hr
      · exact ⟨rfl, .inl ⟨⟨_, rfl⟩, rfl, by simp only [hrx, Bool.false_and]⟩⟩

theorem ignore_removeTask_runs {r : Except Error Unit}
    (h : runs (ignore (removeTask t)) faults s = some (r, (rest, s'))) :
    r = .ok () ∧ (∃ f, faults = f :: rest) ∧ ∃ ops, (ops = [] ∨ ops = [.removeTask t]) ∧
      s' = { s with taskChan := s.taskChan ++ ops } := by
  obtain ⟨_, h₁, rfl⟩ | ⟨_, _, _, h₁, h⟩ := runs_recover h
  · obtain ⟨f, rfl, ⟨-, -, rfl⟩ | ⟨-, hr, -⟩⟩ := runs_sendTask h₁
    · exact ⟨rfl, ⟨f, rfl⟩, _, .inr rfl, rfl⟩
    · cases hr
  · obtain ⟨⟩ := h
    obtain ⟨f, rfl, ⟨-, hr, -⟩ | ⟨-, -, rfl⟩⟩ := runs_sendTask h₁
    · cases hr
    · refine ⟨rfl, ⟨f, rfl⟩, [], .inl rfl, ?_⟩
      rw [List.append_nil]

theorem triggerDownstream_runs {r : Except Error Unit}
    (h : runs (triggerDownstream next) faults s = some (r, (rest, s'))) :
    ((∃ e, r = .error e) ∧ (∀ t, s.db.activeTasks.find t = none →
        s'.db.activeTasks.find t = none) ∧
      ∃ uuid, next = some uuid ∧ (fails faults 0 = true ∨ fails faults 2 = true ∨
        fails faults 3 = true ∨ s.taskRx = false ∨ s.db.findPendingTask uuid = none)) ∨
    r = .ok () ∧ (next = none ∧ s = s' ∨
      ∃ uuid t task db, next = some uuid ∧ s.db.findPendingTask uuid = some (t, task) ∧
        Db.updateTask t (fun t => { t with state := .ready, updatedAt := s.clock }) s.db =
          .ok ({ task with state := .ready, updatedAt := s.clock }, db) ∧
        (fails faults 0 = false ∧ fails faults 2 = false ∧ fails faults 3 = false) ∧
        s.taskRx = true ∧ s' = { s with
          db
          taskChan := s.taskChan ++ [.batchAddTask
            (db.eligibleWorkers .anyWriteAdmin task.groupId task.tags) t task.priority] }) := by
  cases next with
  | none =>
    obtain ⟨⟩ := h
    exact .inr ⟨rfl, .inl ⟨rfl, rfl⟩⟩
  | some uuid =>
    obtain ⟨he, hn, hc⟩ | ⟨t, task, db, hf, hq, rfl, ⟨f, f', rfl⟩, hrx, rfl⟩ :=
      workerTriggerPendingTask_runs h
    · exact .inl ⟨he, hn, uuid, rfl, hc⟩
    · exact .inr ⟨rfl, .inr ⟨uuid, t, task, db, rfl, hf, hq, ⟨rfl, rfl, rfl⟩, hrx, rfl⟩⟩

theorem concludeCommit_runs {r : Except Error Unit}
    (h : runs (concludeCommit w t next st) faults s = some (r, (rest, s'))) :
    ((∃ e, r = .error e) ∧ (∀ t, s.db.activeTasks.find t = none →
        s'.db.activeTasks.find t = none) ∧
      ((∃ uuid, next = some uuid ∧ (fails faults 1 = true ∨ fails faults 3 = true ∨
          fails faults 4 = true ∨ s.taskRx = false ∨ s.db.findPendingTask uuid = none)) ∨
        st = .gracefulShutdown ∧ (s.taskRx && s.heartbeatRx) = false)) ∨
    r = .ok () ∧ ∃ s₁ ops, (ops = [] ∨ ops = [.removeTask t]) ∧
      (next = none ∧ s₁ = { s with taskChan := s.taskChan ++ ops } ∨
        ∃ uuid t task db, next = some uuid ∧ s.db.findPendingTask uuid = some (t, task) ∧
          Db.updateTask t (fun t => { t with state := .ready, updatedAt := s.clock }) s.db =
            .ok ({ task with state := .ready, updatedAt := s.clock }, db) ∧
          (fails faults 1 = false ∧ fails faults 3 = false ∧ fails faults 4 = false) ∧
          s.taskRx = true ∧ s₁ = { s with
            db
            taskChan := s.taskChan ++ ops ++ [.batchAddTask
              (db.eligibleWorkers .anyWriteAdmin task.groupId task.tags) t task.priority] }) ∧
      (st = .normal ∧ s₁ = s' ∨ st = .gracefulShutdown ∧ s.taskRx = true ∧
        s.heartbeatRx = true ∧ s' = { s₁ with
          taskChan := s₁.taskChan ++ [.unregisterWorker w]
          heartbeatChan := s₁.heartbeatChan ++ [.unregisterWorker w] }) := by
  obtain ⟨_, _, s₁, h₁, h⟩ | ⟨e, h₁, -⟩ := runs_bind h
  swap
  · obtain ⟨hr, -⟩ := ignore_removeTask_runs h₁
    cases hr
  obtain ⟨-, ⟨f, rfl⟩, ops, hops, rfl⟩ := ignore_removeTask_runs h₁
  simp only [fails_cons]
  obtain ⟨_, _, s₂, h₂, h⟩ | ⟨e, h₂, rfl⟩ := runs_bind h
  swap
  · obtain ⟨he, hn, uuid, rfl, hc⟩ | ⟨hr, -⟩ := triggerDownstream_runs h₂
    · exact .inl ⟨he, hn, .inl ⟨uuid, rfl, hc⟩⟩
    · cases hr
  obtain ⟨⟨_, hr⟩, -⟩ | ⟨-, h₂⟩ := triggerDownstream_runs h₂
  · cases hr
  obtain ⟨hdb, ⟨he, hst, hrx⟩ | ⟨rfl, hu⟩⟩ := unregisterGraceful_runs h
  · refine .inl ⟨he, ?_, .inr ⟨hst, ?_⟩⟩
    · rw [← hdb]
      obtain ⟨-, rfl⟩ | ⟨_, t, _, _, -, -, hq, -, -, rfl⟩ := h₂
      · exact fun _ => id
      · intro t' hn
        obtain ⟨_, _, -, rfl⟩ := Db.updateTask_ok hq
        simp only [Table.find_update, show s.db.activeTasks.find t' = none from hn,
          Option.map_none, ite_self]
    · obtain ⟨-, rfl⟩ | ⟨_, _, _, _, -, -, -, -, -, rfl⟩ := h₂ <;> exact hrx
  · refine .inr ⟨rfl, s₂, ops, hops, ?_, ?_⟩
    · obtain ⟨rfl, rfl⟩ | h₂ := h₂
      · exact .inl ⟨rfl, rfl⟩
      · exact .inr h₂
    · obtain hu | ⟨rfl, hrx, hrx', rfl⟩ := hu
      · exact .inl hu
      · refine .inr ⟨rfl, ?_, ?_, rfl⟩
        · obtain ⟨-, rfl⟩ | ⟨_, _, _, _, -, -, -, -, -, rfl⟩ := h₂ <;> exact hrx
        · obtain ⟨-, rfl⟩ | ⟨_, _, _, _, -, -, -, -, -, rfl⟩ := h₂ <;> exact hrx'

end Service

namespace Db
variable {db db' : Db}

theorem committed_eligible (w' : WorkerId) :
    (db.committed w t archived now).eligible w' g tags = db.eligible w' g tags := by
  simp only [eligible, committed, Table.find_update]
  split
  · cases db.workers.find w' <;> rfl
  · rfl

theorem withoutWorkers_eligible {p : WorkerId → Bool} {w' : WorkerId} :
    (db.withoutWorkers p).eligible w' g tags = (db.eligible w' g tags && !p w') := by
  simp only [eligible, withoutWorkers, Table.find_deleteWhere]
  cases p w' with
  | false =>
    rw [Bool.not_false, Bool.and_true]
    cases db.groupWorker.find (g, w') <;> cases db.workers.find w' <;> rfl
  | true =>
    rw [Bool.not_true, Bool.and_false]
    cases db.groupWorker.find (g, w') <;> rfl

theorem commitTask_effect (hq : commitTask w t archived now db = .ok (st, db')) :
    db'.activeTasks = db.activeTasks.erase t ∧
    db'.archivedTasks = db.archivedTasks.set t archived ∧
    (st = .normal ∧ (∃ worker, db'.workers.find w = some worker ∧ worker.assignedTaskId = none) ∨
      st = .gracefulShutdown ∧ db'.workers.find w = none) ∧
    ∀ w' g tags, db'.eligible w' g tags = true ↔
      db.eligible w' g tags = true ∧ ¬(w' = w ∧ st = .gracefulShutdown) := by
  obtain ⟨-, worker, hw, rfl, ⟨hs, rfl⟩ | ⟨hs, rfl⟩⟩ := commitTask_ok hq
  · refine ⟨rfl, rfl, .inl ⟨hs, { worker with updatedAt := now, assignedTaskId := none }, ?_, rfl⟩,
      fun w' g tags => ?_⟩
    · simp only [committed, Table.find_update_self, hw, Option.map_some]
    · simp only [committed_eligible, hs, reduceCtorEq, and_false, not_false_eq_true, and_true]
  · refine ⟨rfl, rfl, .inr ⟨hs, ?_⟩, fun w' g tags => ?_⟩
    · exact withoutWorkers_find (decide_eq_true rfl)
    · simp only [withoutWorkers_eligible, committed_eligible, hs, and_true, Bool.and_eq_true,
        Bool.not_eq_true', decide_eq_false_iff_not]

theorem findPendingTask_erase (hk : db'.Keyed)
    (ht : db.activeTasks.find t = some task) (hst : task.state ≠ .pending)
    (hdb : db'.activeTasks = db.activeTasks.erase t) (uuid : Uuid) :
    db'.findPendingTask uuid = db.findPendingTask uuid := by
  cases h : db.findPendingTask uuid with
  | some row =>
    obtain ⟨hf, rfl, hp⟩ := findPendingTask_some h
    have hne : row.1 ≠ t := by
      rintro rfl
      obtain rfl := Option.some.inj (ht.symm.trans hf)
      exact hst hp
    refine hk.findPendingTask_eq ?_ hp
    rw [hdb, Table.find_erase_ne _ hne]
    exact hf
  | none =>
    cases h' : db'.findPendingTask uuid with
    | none => rfl
    | some row =>
      obtain ⟨hf, hu, hp⟩ := findPendingTask_some h'
      rw [hdb, Table.find_erase] at hf
      split at hf
      next => cases hf
      next =>
        have hn := Table.findWhere_none h hf
        simp only [hu, hp, and_self, decide_true, reduceCtorEq] at hn

end Db

namespace TaskDispatcher
variable {d : TaskDispatcher} {ops ops' : List TaskDispatcherOp} {w w₀ : WorkerId}

theorem queued_after_commit (hops : ops = [] ∨ ops = [.removeTask t₀])
    (hops' : ops' = [] ∨ ops' = [.unregisterWorker w₀] ∧ w ≠ w₀) (hw : w ∈ ws)
    (hr : (d.handleOps chan []).registered w = true) (picks : List (Option TaskId)) :
    (d.handleOps (chan ++ (ops ++ .batchAddTask ws t p :: ops')) picks).queued w t = some p := by
  rw [registered_handleOps rfl chan [] picks] at hr
  rw [handleOps_append]
  generalize d.handleOps chan picks = d at hr ⊢
  generalize picks.drop _ = picks
  have hadd (d : TaskDispatcher) (hr : d.registered w = true) (pick : Option TaskId) :
      (d.handleOp (.batchAddTask ws t p) pick true).dispatcher.queued w t = some p := by
    refine (queued_handleOp d (.batchAddTask ws t p) pick fun _ => nofun).trans ?_
    simp only [TaskDispatcherOp.drops, TaskDispatcherOp.adds, hr, hw, and_self, if_true,
      Bool.false_eq_true, if_false, Option.some_or]
  have hrest (d : TaskDispatcher) (hq : d.queued w t = some p) (picks : List (Option TaskId)) :
      (d.handleOps ops' picks).queued w t = some p := by
    rcases hops' with rfl | ⟨rfl, hne⟩
    · exact hq
    · simp only [handleOps, handleOp, queued_unregisterWorker, hne, if_false, hq]
  rcases hops with rfl | rfl
  · exact hrest _ (hadd d hr _) _
  · refine hrest _ (hadd _ ?_ _) _
    rw [registered_handleOp, hr]
    rfl

theorem registered_before_commit (hops : ops = [] ∨ ops = [.removeTask t₀])
    (hops' : ops' = [] ∨ ops' = [.unregisterWorker w₀])
    (hq : (d.handleOps (chan ++ (ops ++ .batchAddTask ws t p :: ops')) []).queued w t' = some p') :
    (d.handleOps chan []).registered w = true := by
  have hr := registered_of_queued hq
  rw [handleOps_append] at hr
  rcases hops with rfl | rfl <;> rcases hops' with rfl | rfl <;>
  simp only [List.nil_append, List.cons_append, handleOps, registered_handleOp, reduceCtorEq,
    decide_false, Bool.not_false, Bool.false_or, Bool.and_true, Bool.and_eq_true] at hr
  · exact hr
  · exact hr.1
  · exact hr
  · exact hr.1

end TaskDispatcher

namespace Infra
variable {s s' : Infra}

theorem triggers_iff (hf : s.db.findPendingTask uuid = some (t', task')) {worker : Worker}
    (hrx : s.taskRx = true) (hc : fails faults 4 = false ∧ fails faults 6 = false ∧
      fails faults 7 = false) :
    s.triggers faults w worker uuid = true ↔
      ∀ w', s.db.eligible w' task'.groupId task'.tags = true →
        (w' = w ∧ worker.state = .gracefulShutdown) ∨
        (s.dispatcher.handleOps s.taskChan []).registered w' = true := by
  simp only [triggers, hrx, hc, hf, Bool.not_false, Bool.and_self, Bool.true_and,
    Option.any_some, List.all_eq_true, Db.mem_eligibleWorkers, Bool.or_eq_true, decide_eq_true_eq]

theorem triggers_needs {worker : Worker} (h : s.triggers faults w worker uuid = true) :
    (fails faults 4 = false ∧ fails faults 6 = false ∧ fails faults 7 = false) ∧
      s.taskRx = true ∧ s.db.findPendingTask uuid ≠ none := by
  simp only [triggers, Bool.and_eq_true, Bool.not_eq_true'] at h
  obtain ⟨⟨⟨⟨h₄, h₆⟩, h₇⟩, hrx⟩, hp⟩ := h
  refine ⟨⟨h₄, h₆, h₇⟩, hrx, fun hn => ?_⟩
  rw [hn] at hp
  cases hp

/-- A Commit that fails behind its transaction has left a change. -/
theorem not_untouched (ht : s.db.activeTasks.find t = some task)
    (ht' : s'.db.activeTasks.find t = none) : ¬Untouched s s' w t := by
  intro h
  rw [h.task, ht] at ht'
  cases ht'

variable {worker : Worker} {task task' : ActiveTask} {db : Db}

theorem commitsWhole_iff (ht : s.db.activeTasks.find t = some task)
    (hw : s.db.workers.find w = some worker) (hd : s.durable faults w wu t res task = true) :
    s.commitsWhole faults w wu t res = true ↔
      (∀ uuid, task.downstreamTaskUuid = some uuid → s.triggers faults w worker uuid = true) ∧
      (worker.state = .normal ∨ s.taskRx = true ∧ s.heartbeatRx = true) := by
  simp only [commitsWhole, ht, hw, hd, Bool.not_true, Bool.false_or, Bool.and_eq_true,
    Option.all_eq_true, Bool.or_eq_true, decide_eq_true_eq]

theorem durable_state (hd : s.durable faults w wu t res task = true) : task.state ≠ .pending := by
  simp only [durable, Bool.and_eq_true, decide_eq_true_eq] at hd
  rintro hst
  rcases hd.1.1.1.2 with h | h <;> rw [hst] at h <;> cases h

theorem archived_once (hq : Db.commitTask w t (Service.committedTask task res wu now) now s.db =
      .ok (st, db)) (hdb : s'.db.archivedTasks = db.archivedTasks) :
    ∃ row, s.db.archivedTasks.find t = none ∧ s'.db.archivedTasks.find t = some row ∧
      row.result = some res ∧ row.reporterUuid = some wu ∧
      ∀ t' row', s'.db.archivedTasks.find t' = some row' → row'.uuid = row.uuid → t' = t := by
  have hc := (Db.commitTask_ok hq).1
  have ha := (Db.commitTask_effect hq).2.1
  refine ⟨Service.committedTask task res wu now, Db.archiveConflict_find hc, ?_, rfl, rfl,
    fun t' row' hf hu => ?_⟩
  · rw [hdb, ha, Table.find_set_self]
  · rw [hdb, ha, Table.find_set] at hf
    split at hf
    next heq => exact heq
    next => exact (Db.archiveConflict_uuid hc hf hu).elim

theorem concluded_worker (ops : List TaskDispatcherOp) (hw : s.db.workers.find w = some worker)
    (hq : Db.commitTask w t archived now s.db = .ok (worker.state, db))
    (hdb : s'.db.workers = db.workers)
    (hs : worker.state = .normal ∨ worker.state = .gracefulShutdown ∧
      s'.taskChan = ops ++ [.unregisterWorker w] ∧
      s'.heartbeatChan = s.heartbeatChan ++ [.unregisterWorker w]) :
    ∃ worker, s.db.workers.find w = some worker ∧
      match worker.state with
      | .normal => ∃ worker', s'.db.workers.find w = some worker' ∧ worker'.assignedTaskId = none
      | .gracefulShutdown => s'.db.workers.find w = none ∧ s'.unregisters w := by
  refine ⟨worker, hw, ?_⟩
  obtain ⟨hst, worker', hf, hn⟩ | ⟨hst, hf⟩ := (Db.commitTask_effect hq).2.2.1
  · rw [hst, hdb]
    exact ⟨worker', hf, hn⟩
  · rw [hst] at hs ⊢
    obtain hs | ⟨-, hchan, hbeat⟩ := hs
    · cases hs
    refine ⟨by rw [hdb, hf], fun picks => ?_, fun time => ?_⟩
    · rw [hchan, TaskDispatcher.handleOps_append]
      simp only [TaskDispatcher.handleOps, TaskDispatcher.registered_handleOp, reduceCtorEq,
        decide_false, decide_true, Bool.not_true, Bool.and_false, Bool.or_self]
    · rw [hbeat, List.foldl_append, List.foldl_cons, List.foldl_nil]
      exact Table.find_erase_self _ _

theorem queuesForAll_iff {ops ops' : List TaskDispatcherOp} {st : WorkerState} (hk : s'.db.Keyed)
    (hf : s'.db.activeTasks.find t = some task) (hst : task.state = .ready)
    (hdisp : s'.dispatcher = s.dispatcher)
    (hchan : s'.taskChan = s.taskChan ++ (ops ++ .batchAddTask
      (s'.db.eligibleWorkers .anyWriteAdmin task.groupId task.tags) t task.priority :: ops'))
    (hops : ops = [] ∨ ops = [.removeTask t₀])
    (hops' : ops' = [] ∨ ops' = [.unregisterWorker w] ∧ st = .gracefulShutdown)
    (hel : ∀ w', s'.db.eligible w' task.groupId task.tags = true ↔
      s.db.eligible w' task.groupId task.tags = true ∧ ¬(w' = w ∧ st = .gracefulShutdown)) :
    (∃ t' task', s'.db.activeTasks.find t' = some task' ∧ task'.uuid = task.uuid ∧
      task'.state = .ready ∧ s'.queuesForAll t' task') ↔
    ∀ w', s.db.eligible w' task.groupId task.tags = true → (w' = w ∧ st = .gracefulShutdown) ∨
      (s.dispatcher.handleOps s.taskChan []).registered w' = true := by
  constructor
  · rintro ⟨t', task', hf', hu, -, hall⟩ w' he
    obtain rfl := hk.uuids t' t _ _ (Db.Keyed.origin_active hf') (Db.Keyed.origin_active hf) hu
    obtain rfl := Option.some.inj (hf.symm.trans hf')
    by_cases hw : w' = w ∧ st = .gracefulShutdown
    · exact .inl hw
    · have hq := hall w' ((hel w').2 ⟨he, hw⟩) []
      rw [hdisp, hchan] at hq
      exact .inr (TaskDispatcher.registered_before_commit hops (hops'.imp_right And.left) hq)
  · intro hall
    refine ⟨t, task, hf, rfl, hst, fun w' he picks => ?_⟩
    obtain ⟨he', hw⟩ := (hel w').1 he
    have hr := (hall w' he').resolve_left hw
    have hops' : ops' = [] ∨ ops' = [.unregisterWorker w] ∧ w' ≠ w := by
      refine hops'.imp_right fun ⟨h, hst⟩ => ⟨h, ?_⟩
      rintro rfl
      exact hw ⟨rfl, hst⟩
    rw [hdisp, hchan]
    exact TaskDispatcher.queued_after_commit hops hops' (Db.mem_eligibleWorkers.2 he) hr picks

end Infra

open Service in
theorem durable_all_or_nothing {s s' : Infra} {r : Except Error Unit} (hk : s.db.Keyed)
    (ht : s.db.activeTasks.find t = some task) (hw : s.db.workers.find w = some worker)
    (hd : s.durable (fault :: none :: none :: faults) w wu t res task = true)
    (hq : Db.commitTask w t (committedTask task res wu s.clock) s.clock s.db =
      .ok (worker.state, db))
    (h : runs (concludeCommit w t task.downstreamTaskUuid worker.state) faults { s with db } =
      some (r, (rest, s'))) :
    AllOrNothing s s' w wu t res (r.map f) ↔
      s.commitsWhole (fault :: none :: none :: faults) w wu t res = true := by
  have hrun : (Write.commitTask w t (committedTask task res wu s.clock) s.clock).run s.clock s.db =
      .ok (worker.state, db) := hq
  have hk' : db.Keyed := hk.write hrun (Db.Keyed.origin_active ht)
  have hpend := Db.findPendingTask_erase hk' ht (Infra.durable_state hd) (Db.commitTask_effect hq).1
  rw [Infra.commitsWhole_iff ht hw hd]
  rcases concludeCommit_runs h with ⟨⟨e, rfl⟩, hn, hc⟩ | ⟨rfl, s₁, ops, hops, hnext, hs⟩
  · have ht' : s'.db.activeTasks.find t = none := hn t (Db.commitTask_active hq)
    refine iff_of_false (Infra.not_untouched ht ht') fun ⟨htr, hst⟩ => ?_
    rcases hc with ⟨uuid, hu, hc⟩ | ⟨hst', hrx⟩
    · obtain ⟨⟨h₄, h₆, h₇⟩, hrx, hp⟩ := Infra.triggers_needs (htr uuid hu)
      simp only [fails_cons] at h₄ h₆ h₇
      rw [← hpend] at hp
      simp only [h₄, h₆, h₇, hrx, hp, Bool.false_eq_true, or_self, reduceCtorEq] at hc
    · rcases hst with hst | ⟨hrx₁, hrx₂⟩
      · rw [hst] at hst'
        cases hst'
      · simp only [hrx₁, hrx₂, Bool.and_self, reduceCtorEq] at hrx
  · obtain ⟨ops', hops', hs', hst⟩ : ∃ ops', (ops' = [] ∧ worker.state = .normal ∨
        ops' = [.unregisterWorker w] ∧ worker.state = .gracefulShutdown) ∧
        (s'.db = s₁.db ∧ s'.dispatcher = s₁.dispatcher ∧
          s'.taskChan = s₁.taskChan ++ ops') ∧
        (worker.state = .normal ∨ worker.state = .gracefulShutdown ∧ s.taskRx = true ∧
          s.heartbeatRx = true ∧
          s'.heartbeatChan = s₁.heartbeatChan ++ [.unregisterWorker w]) := by
      obtain ⟨hst, rfl⟩ | ⟨hst, hrx, hrx', rfl⟩ := hs
      · exact ⟨[], .inl ⟨rfl, hst⟩, ⟨rfl, rfl, (List.append_nil _).symm⟩, .inl hst⟩
      · exact ⟨_, .inr ⟨rfl, hst⟩, ⟨rfl, rfl, rfl⟩, .inr ⟨hst, hrx, hrx', rfl⟩⟩
    obtain ⟨hdb, hdisp, hchan⟩ := hs'
    have hel := (Db.commitTask_effect hq).2.2.2
    have hrx : worker.state = .normal ∨ s.taskRx = true ∧ s.heartbeatRx = true :=
      hst.imp_right fun h => ⟨h.2.1, h.2.2.1⟩
    simp only [hrx, and_true]
    have hworker (hw' : s'.db.workers = db.workers)
        (hbeat : s₁.heartbeatChan = s.heartbeatChan) := Infra.concluded_worker
      s₁.taskChan hw hq hw' (hops'.imp And.right fun ⟨h, hst'⟩ => ⟨hst', h ▸ hchan, by
        obtain hst | ⟨-, -, -, hs⟩ := hst
        · rw [hst] at hst'
          cases hst'
        · rw [hs, hbeat]⟩)
    rcases hnext with ⟨hn, rfl⟩ | ⟨uuid, t', task', db', hn, hf, hqt, hc, hrxt, rfl⟩
    · refine iff_of_true ⟨Infra.archived_once hq (by rw [hdb]), ?_, hworker (by rw [hdb]) rfl,
        fun task' uuid ht' hu => ?_⟩ fun uuid hu => ?_
      · rw [hdb]
        exact Db.commitTask_active hq
      · obtain rfl := Option.some.inj (ht.symm.trans ht')
        rw [hn] at hu
        cases hu
      · rw [hn] at hu
        cases hu
    · have hrun' : (Write.triggerTask t' s.clock).run s.clock db =
          .ok ({ task' with state := .ready, updatedAt := s.clock }, db') := hqt
      have hdb : s'.db = db' := hdb
      have hk'' : s'.db.Keyed := hdb ▸ hk'.write hrun' trivial
      obtain ⟨_, -, -, hdb'⟩ := Db.updateTask_ok hqt
      have hfp : db.findPendingTask uuid = some (t', task') := hf
      have hf : db.activeTasks.find t' = some task' ∧ task'.uuid = uuid ∧ task'.state = .pending :=
        Db.findPendingTask_some hf
      have hrow : s'.db.activeTasks.find t' =
          some { task' with state := .ready, updatedAt := s.clock } := by
        rw [hdb, hdb']
        exact Db.update_row hf.1 _
      have hq' := Infra.queuesForAll_iff (s := s) (w := w) hk'' hrow rfl hdisp
        (by
          rw [hchan, hdb]
          simp only [List.append_assoc, List.cons_append, List.nil_append]) hops
        (hops'.imp And.left id) (fun w' => by
          rw [hdb, hdb']
          exact hel w' _ _)
      obtain ⟨hf₁, rfl, -⟩ := hf
      have htr : s.triggers (fault :: none :: none :: faults) w worker task'.uuid = true ↔ _ :=
        Infra.triggers_iff (hpend _ ▸ hfp) hrxt hc
      constructor
      · intro hcon uuid hu
        obtain rfl := Option.some.inj (hn.symm.trans hu)
        exact htr.2 (hq'.1 (hcon.downstream task _ ht hn))
      · intro hall
        refine ⟨Infra.archived_once hq (by rw [hdb, hdb']), ?_,
          hworker (by rw [hdb, hdb']) rfl, fun task₁ uuid ht₁ hu => ?_⟩
        · rw [hdb, hdb']
          change (db.activeTasks.update _ _).find t = none
          rw [Table.find_update, Db.commitTask_active hq, Option.map_none, ite_self]
        · obtain rfl := Option.some.inj (ht.symm.trans ht₁)
          obtain rfl := Option.some.inj (hn.symm.trans hu)
          exact hq'.2 (htr.1 (hall _ hn))

theorem Service.runs_of_follow {s s' : State} {p : Service α} {f : α → Reply}
    (hprog : program call = once f p) (hc : call.isRequest = true)
    (hf : Path.follow State.step (fun _ _ => true) s
      (.call call :: faults.map (.step s.pool.length)) = some s')
    (hr : s'.result s.pool.length = some b) :
    ∃ r, p.runs faults s.infra = some (r, ([], s'.infra)) ∧ b = r.map f := by
  simp only [Path.follow, if_true, State.step, hc, Option.bind_some] at hf
  have hi : (s.pool ++ [Thread.start program call])[s.pool.length]? =
      some ⟨call, program call⟩ := List.getElem?_concat_length
  have hy : (program call).Yields (fun _ _ => True) (· ≠ .again) := by
    rw [hprog]
    apply (Prog.yields_bind _ _).2
    apply Prog.yields_all
    intro r hr
    cases hr
  have hrun := run_of_follow (s := { s with pool := s.pool ++ [.start program call] }) hi hy hf hr
  rw [hprog] at hrun
  obtain ⟨⟨r, faults', infra⟩, hp, hd⟩ :=
    Option.bind_eq_some_iff.1 ((Prog.run_bind _ _ _ _).symm.trans hrun)
  obtain ⟨⟩ := hd
  exact ⟨r, hp, rfl⟩

/-- A Commit changes nothing if it fails and is complete if it succeeds, exactly if none of the
commands behind its transaction fails. -/
theorem commit_all_or_nothing {s s' : State}
    (hp : Path State.step ok (State.initial accounts timeout clock) as s)
    (hf : Path.follow State.step (fun _ _ => true) s
      (.call (.reportTask w wu t (.commit res)) :: faults.map (.step s.pool.length)) = some s')
    (hr : s'.result s.pool.length = some b) :
    AllOrNothing s.infra s'.infra w wu t res b ↔
      s.infra.commitsWhole faults w wu t res = true := by
  obtain ⟨r, hrun, rfl⟩ := Service.runs_of_follow rfl rfl hf hr
  obtain ⟨⟨e, rfl⟩, hs, hw⟩ | ⟨task, worker, fault, rest, db, r', ht, hw, hd, rfl, hq, h, rfl⟩ :=
    Service.reportTask_commit_runs hrun
  · rw [← hs]
    exact iff_of_true ⟨rfl, rfl, rfl, rfl⟩ hw
  · have hiff := durable_all_or_nothing (f := fun _ => .url none) (grounded_of_path hp).keyed
      ht hw hd hq h
    cases r' <;> exact hiff

def RunDemo.committed : Except Error Reply → Bool
  | .ok (.url none) => true
  | _ => false

open RunDemo in
/-- A worker commits its task, and the successor is queued for it. -/
theorem successor_queued : ∃ s s', Path State.step (fun _ _ => True) start
      (register 0 ++ submit 1 ++ fetch 2 1 1 ++ finish 3 1 1 ++ succeed 4 1 1) s ∧
    Path.follow State.step (fun _ _ => true) s
      (.call (.reportTask 1 0 1 (.commit ⟨0, none⟩)) :: steps 5 9) = some s' ∧
    AllOrNothing s.infra s'.infra 1 0 1 ⟨0, none⟩ (.ok (.url none)) := by
  have hrun : (Path.follow State.step (fun _ _ => true) start (register 0 ++ submit 1 ++
      fetch 2 1 1 ++ finish 3 1 1 ++ succeed 4 1 1)).any (fun s =>
        s.infra.commitsWhole (List.replicate 9 none) 1 0 1 ⟨0, none⟩ && s.pool.length == 5 &&
        (Path.follow State.step (fun _ _ => true) s (.call (.reportTask 1 0 1
          (.commit ⟨0, none⟩)) :: (List.replicate 9 none).map (.step 5))).any fun s' =>
            (s'.result 5).any committed) = true := by decide
  obtain ⟨s, hp, hs⟩ := Path.of_follow_any hrun
  simp only [Bool.and_eq_true, beq_iff_eq, Option.any_eq_true] at hs
  obtain ⟨⟨hw, hl⟩, s', hf, r, hr, hm⟩ := hs
  unfold committed at hm
  split at hm
  next =>
    rw [← hl] at hf hr
    refine ⟨s, s', hp.mono fun _ _ _ => trivial, ?_, (commit_all_or_nothing hp hf hr).2 hw⟩
    rw [← hf, hl]
    rfl
  next => cases hm

open RunDemo in
/-- The successor of a task is cancelled before the task is committed: the Commit fails with
the task archived. -/
theorem archived_by_failed_commit : ∃ s s' e, Path State.step (fun _ _ => True) start
      (register 0 ++ submit 1 ++ fetch 2 1 1 ++ finish 3 1 1 ++ succeed 4 1 1 ++
        .call (.cancelTasksByUuids 1 [2]) :: steps 5 2) s ∧
    Path.follow State.step (fun _ _ => true) s
      (.call (.reportTask 1 0 1 (.commit ⟨0, none⟩)) :: steps 6 5) = some s' ∧
    s'.result 6 = some (.error e) ∧ ¬Untouched s.infra s'.infra 1 1 := by
  have hrun : (Path.follow State.step (fun _ _ => true) start (register 0 ++ submit 1 ++
      fetch 2 1 1 ++ finish 3 1 1 ++ succeed 4 1 1 ++
        .call (.cancelTasksByUuids 1 [2]) :: steps 5 2)).any (fun s =>
        (s.infra.db.activeTasks.find 1).isSome &&
        (Path.follow State.step (fun _ _ => true) s (.call (.reportTask 1 0 1
          (.commit ⟨0, none⟩)) :: steps 6 5)).any fun s' =>
            (s'.infra.db.activeTasks.find 1).isNone && (s'.result 6).any fun r => match r with
              | .error _ => true
              | _ => false) = true := by decide
  obtain ⟨s, hp, hs⟩ := Path.of_follow_any hrun
  simp only [Bool.and_eq_true, Option.any_eq_true, Option.isSome_iff_exists,
    Option.isNone_iff_eq_none] at hs
  obtain ⟨⟨task, ht⟩, s', hf, ht', r, hr, hm⟩ := hs
  split at hm
  next e => exact ⟨s, s', e, hp.mono fun _ _ _ => trivial, hf, hr,
    Infra.not_untouched ht ht'⟩
  next => cases hm

end Mitosis
