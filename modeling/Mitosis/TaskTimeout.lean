import Mitosis.FilterCancel
import Mitosis.Proof.Effects

namespace Mitosis
set_option autoImplicit true

/-- `a + b` of two `u64`, where it does not overflow. -/
def addU64 (a b : Nat) : Option Nat := if a + b < 2 ^ 64 then some (a + b) else none

/-- `Instant + Duration`: the seconds of the monotonic clock are an `i64`, and the sum panics where
they overflow. -/
def addInstant (clock secs : Nat) : Option Nat :=
  if clock + secs < 2 ^ 63 then some (clock + secs) else none

/-- The part of `execute_task` between the announcement of the pending execution and the spawn: for
how long it announces the execution, and until when the task may run. -/
def execTimes (clock : Nat) (task : WorkerTaskResp) : Option (Nat × Nat) := do
  let ex ← addU64 task.timeout 60
  let timeoutUntil ← addInstant clock task.timeout
  return (ex, timeoutUntil)

theorem execTimes_eq_iff {clock : Nat} {task : WorkerTaskResp} :
    execTimes clock task = some (task.timeout + 60, clock + task.timeout) ↔
      task.timeout + 60 < 2 ^ 64 ∧ clock + task.timeout < 2 ^ 63 := by
  unfold execTimes addU64 addInstant
  by_cases hu : task.timeout + 60 < 2 ^ 64
  · rw [if_pos hu]
    by_cases hi : clock + task.timeout < 2 ^ 63
    · rw [if_pos hi]
      exact iff_of_true rfl ⟨hu, hi⟩
    · rw [if_neg hi]
      apply iff_of_false
      · intro h
        cases h
      · exact fun h => hi h.2
  · rw [if_neg hu]
    apply iff_of_false
    · intro h
      cases h
    · exact fun h => hu h.1

theorem asU64_asI64 {n : Nat} (h : n < 2 ^ 64) : asU64 (asI64 n) = n := by
  unfold asU64 asI64
  omega

def Write.sets (t : TaskId) : (q : Write) → q.Ret → Prop
  | .insertTask _, r => r.1 = t
  | .changeTask _ _ req, r => r.1 = t ∧ req.timeout.isSome
  | _, _ => False

open Service in
/-- In a database that statements have made, the last timeout that a submission or a change gave to
the task is `n`. -/
inductive Accepted (n : Nat) (t : TaskId) : Db → Prop
  | submitted {req : SubmitTaskReq} {task : ActiveTask} {db db' : Db} (clock : Instant) :
    req.timeout = n →
    (Write.insertTask (newTask creatorId req group uuid time)).run clock db =
      .ok ((t, task), db') → Accepted n t db'
  | spawned {req : SubmitTaskReq} {task : ActiveTask} {db db' : Db} (clock : Instant) :
    req.timeout = n →
    (Write.insertTask { newTask creatorId req group uuid time with
      state := .pending, upstreamTaskUuid }).run clock db = .ok ((t, task), db') →
    Accepted n t db'
  | changed {req : ChangeTaskReq} {task : ActiveTask} {db db' : Db} (clock : Instant) :
    req.timeout = some n →
    (Write.changeTask userId uuid req).run clock db = .ok ((t, task), db') → Accepted n t db'
  | kept {q : Write} {r : q.Ret} {db db' : Db} (clock : Instant) : Accepted n t db →
    q.run clock db = .ok (r, db') → ¬q.sets t r → Accepted n t db'

theorem TaskChange.timeout {q : Write} {r : q.Ret} {task : ActiveTask}
    (h : q.run clock db = .ok (r, db')) (hs : ¬q.sets t r)
    (ht : db'.activeTasks.find t = some task) :
    ∃ task', db.activeTasks.find t = some task' ∧ task.timeout = task'.timeout := by
  have hc := Write.taskChange h t
  rw [ht] at hc
  generalize hrow : db.activeTasks.find t = row at hc
  cases hc with
  | same => exact ⟨task, rfl, rfl⟩
  | inserted heq =>
    obtain ⟨-, hr, -⟩ := Db.insertTask_ok h
    rw [Write.sets, hr] at hs
    exact (hs heq.symm).elim
  | @changed _ _ req =>
    obtain ⟨_, -, -, -, -, rfl⟩ := Db.changeTask_ok h
    refine ⟨_, rfl, ?_⟩
    by_cases hr : r.1 = t
    · have hn : req.timeout = none := by
        simpa [Write.sets, hr] using hs
      simp only [Db.changedTask, hn, Option.elim_none]
    · rw [Table.find_update_ne _ _ (Ne.symm hr), hrow] at ht
      rw [← Option.some.inj ht]
  | assigned | reported | pushedBack | shutByFilter | shutByUuids | linked | triggered | touched =>
    exact ⟨_, rfl, rfl⟩

theorem Db.insertTask_row {new : ActiveTask} (h : Db.insertTask new db = .ok ((t, r), db'))
    (ht : db'.activeTasks.find t = some task) : task = new := by
  obtain ⟨-, hr, rfl⟩ := Db.insertTask_ok h
  obtain ⟨rfl, -⟩ := Prod.mk.inj hr
  exact (Option.some.inj ((Table.find_set_self _ _ _).symm.trans ht)).symm

theorem Db.changedTask_timeout {req : ChangeTaskReq} (h : req.timeout = some n) :
    (Db.changedTask req now task).timeout = asI64 n := by
  rw [Db.changedTask, h, Option.elim_some]

theorem Accepted.timeout (h : Accepted n t db) {task : ActiveTask}
    (ht : db.activeTasks.find t = some task) : task.timeout = asI64 n := by
  induction h generalizing task with
  | submitted clock hn hq | spawned clock hn hq =>
    rw [Db.insertTask_row hq ht]
    exact congrArg (fun n : Nat => asI64 n) hn
  | changed clock hn hq =>
    obtain ⟨task', hf, -, -, -, rfl⟩ := Db.changeTask_ok hq
    have heq := Option.some.inj ((Db.update_row hf _).symm.trans ht)
    exact (congrArg ActiveTask.timeout heq.symm).trans (Db.changedTask_timeout hn)
  | kept clock h hq hs ih =>
    obtain ⟨task', ht', heq⟩ := TaskChange.timeout hq hs ht
    rw [heq, ih ht']

namespace Service
variable {faults rest : List (Option DbErr)} {s s' : Infra} {n : Nat}

theorem runs_fetchTask_timeout {resp : WorkerTaskResp}
    (h : runs (fetchTask w) faults s = some (.ok (.done (some resp)), (rest, s'))) :
    ∃ task, s.db.activeTasks.find resp.id = some task ∧ resp.timeout = asU64 task.timeout := by
  obtain ⟨rx, faults₁, s₁, h₁, h⟩ := runs_bind_ok h
  obtain ⟨-, hdb₁⟩ := does_sent _ (fun _ => Cmd.noConfusion) rfl h₁
  obtain ⟨reply, faults₂, s₂, h₂, h⟩ := runs_bind_ok h
  obtain ⟨-, hdb₂⟩ := does_sent _ (fun _ => Cmd.noConfusion) rfl h₂
  cases reply with
  | none => cases h
  | some id =>
    obtain ⟨time, faults₃, s₃, h₃, h⟩ := runs_bind_ok h
    obtain ⟨-, hdb₃⟩ := does_now rfl h₃
    obtain ⟨row, faults₄, s₄, h₄, h⟩ := runs_bind_ok h
    obtain ⟨db, hq, -⟩ := runs_write_ok h₄
    cases row with
    | none => cases h
    | some task =>
      obtain ⟨worker, faults₅, s₅, h₅, h⟩ := runs_bind_ok h
      obtain ⟨⟩ := h
      rcases Db.assignTask_ok hq with ⟨hn, -⟩ | ⟨task', ht, -, -, hr, -⟩
      · cases hn
      · obtain rfl := Option.some.inj hr
        rw [hdb₁, hdb₂, hdb₃]
        exact ⟨task', ht, rfl⟩

/-- Recording a heartbeat changes the worker's time at most. -/
theorem runs_updateWorker {r : Except Error Worker}
    (h : runs (updateWorker w time k) faults s = some (r, (rest, s'))) :
    s'.clock = s.clock ∧ s'.db.activeTasks = s.db.activeTasks ∧
      (∀ w', s'.db.workers.find w' = none → s.db.workers.find w' = none) ∧
      ∀ worker', r = .ok worker' → ∃ worker, s.db.workers.find w = some worker ∧
        worker'.assignedTaskId = worker.assignedTaskId := by
  induction k generalizing faults s with
  | zero =>
    obtain ⟨⟩ := h
    refine ⟨rfl, rfl, fun _ => id, ?_⟩
    intro worker' hr
    cases hr
  | succ k ih =>
    rcases runs_recover h with ⟨worker', h₁, rfl⟩ | ⟨e, faults₁, s₁, h₁, h₂⟩
    · obtain ⟨db, hq, rfl⟩ := runs_write_ok h₁
      obtain ⟨worker, hw, rfl, rfl⟩ := Db.updateWorker_ok hq
      refine ⟨rfl, rfl, ?_, ?_⟩
      · intro w' hn
        simp only [Table.find_update] at hn
        split at hn
        · exact Option.map_eq_none_iff.1 hn
        · exact hn
      · intro worker' hr
        obtain rfl := Except.ok.inj hr
        exact ⟨worker, hw, rfl⟩
    · obtain ⟨fault, -, hx⟩ := runs_issue h₁
      rcases Cmd.exec_write hx with ⟨-, -, rfl⟩ | ⟨_, _, -, -, hr, -⟩
      · split at h₂
        next =>
          obtain ⟨⟩ := h₂
          refine ⟨rfl, rfl, fun _ => id, ?_⟩
          intro worker' hr
          cases hr
        next => exact ih h₂
      · cases hr

theorem runs_taskExpired {worker : Worker}
    (h : runs (taskExpired worker) faults s = some (.ok true, (rest, s'))) :
    ∃ t task, worker.assignedTaskId = some t ∧ s.db.activeTasks.find t = some task ∧
      asI64 (task.timeout + 60) < (s.clock : Int) - task.updatedAt := by
  rw [taskExpired] at h
  cases ht : worker.assignedTaskId with
  | none =>
    rw [ht] at h
    cases h
  | some t =>
    rw [ht] at h
    obtain ⟨row, faults₁, s₁, h₁, h⟩ := runs_bind_ok h
    obtain ⟨rfl, hrow⟩ := runs_select_ok h₁
    cases row with
    | none => cases h
    | some task =>
      dsimp only at h
      split at h
      next =>
        obtain ⟨time, faults₂, s₂, h₂, h⟩ := runs_bind_ok h
        obtain ⟨fault, -, htime, rfl⟩ := runs_now h₂
        obtain rfl := Except.ok.inj htime
        generalize hb : decide ((s.clock : Int) - task.updatedAt > asI64 (task.timeout + 60)) = b at h
        obtain ⟨⟩ := h
        exact ⟨t, task, rfl, hrow.symm, of_decide_eq_true hb⟩
      next => cases h

theorem does_taskExpired (worker : Worker) (c : Instant) : Does c Eq (taskExpired worker) := by
  rw [taskExpired]
  cases worker.assignedTaskId with
  | none => exact does_ok _
  | some t =>
    apply (does_select _).after _ fun _ => rfl
    intro row
    cases row with
    | none => exact does_ok _
    | some task => exact .ite _ (does_now.after (fun _ => does_ok _) fun _ => rfl) (does_ok _)

theorem runs_heartbeat {worker : Worker} {r : Except Error Unit}
    (hw : s.db.workers.find w = some worker)
    (h : runs (heartbeat w) faults s = some (r, (rest, s')))
    (hgone : s'.db.workers.find w = none) :
    ∃ t task, worker.assignedTaskId = some t ∧ s.db.activeTasks.find t = some task ∧
      asI64 (task.timeout + 60) < (s.clock : Int) - task.updatedAt := by
  obtain ⟨worker', faults₁, s₁, h₁, h⟩ | ⟨e, h₁, -⟩ := runs_bind h
  swap
  · obtain ⟨time, faults₂, s₂, h₂, h₃⟩ | ⟨e', h₂, -⟩ := runs_bind h₁
    · obtain ⟨fault, -, -, rfl⟩ := runs_now h₂
      obtain ⟨-, -, hkeep, -⟩ := runs_updateWorker h₃
      rw [hkeep w hgone] at hw
      cases hw
    · obtain ⟨fault, -, hr, -⟩ := runs_now h₂
      cases hr
  obtain ⟨time, faults₂, s₂, h₂, h₃⟩ := runs_bind_ok h₁
  obtain ⟨fault, -, -, rfl⟩ := runs_now h₂
  obtain ⟨hclock, hactive, hkeep, hworker⟩ := runs_updateWorker h₃
  obtain ⟨worker'', hw', hassigned⟩ := hworker worker' rfl
  obtain rfl := Option.some.inj (hw.symm.trans hw')
  have hthere : s₁.db.workers.find w ≠ none := by
    intro hn
    rw [hkeep w hn] at hw
    cases hw
  obtain ⟨expired, faults₃, s₃, h₄, h⟩ | ⟨e, h₄, -⟩ := runs_bind h
  swap
  · obtain ⟨-, hdb⟩ := does_taskExpired _ _ rfl h₄
    rw [← hdb] at hgone
    exact (hthere hgone).elim
  obtain ⟨-, hdb⟩ := does_taskExpired _ _ rfl h₄
  cases expired with
  | false =>
    obtain ⟨-, hdb'⟩ := does_sendHeartbeat _ _ rfl h
    rw [← hdb', ← hdb] at hgone
    exact (hthere hgone).elim
  | true =>
    obtain ⟨t, task, ht, hf, hlate⟩ := runs_taskExpired h₄
    rw [hactive] at hf
    rw [hclock] at hlate
    exact ⟨t, task, hassigned ▸ ht, hf, hlate⟩

end Service

open Service in
/-- A timeout of `n` seconds passes unchanged from the request through the coordinator to a worker
whose clock reads `clock`. -/
structure TimeoutKept (n clock : Nat) : Prop where
  fetched : ∀ {faults rest s s' w resp},
    runs (fetchTask w) faults s = some (.ok (.done (some resp)), (rest, s')) →
    Accepted n resp.id s.db → resp.timeout = n
  grace : ∀ {db t task}, Accepted n t db → db.activeTasks.find t = some task →
    task.timeout + 60 < 2 ^ 63 ∧ asI64 (task.timeout + 60) = n + 60
  removed : ∀ {faults rest s s' w worker t task} {r : Except Error Unit},
    runs (heartbeat w) faults s = some (r, (rest, s')) → s.db.workers.find w = some worker →
    s'.db.workers.find w = none → worker.assignedTaskId = some t → Accepted n t s.db →
    s.db.activeTasks.find t = some task → (n : Int) + 60 < s.clock - task.updatedAt
  executed : ∀ task : WorkerTaskResp, task.timeout = n →
    execTimes clock task = some (n + 60, clock + n)

theorem asI64_grace {n : Nat} (h : n + 60 < 2 ^ 63) :
    asI64 n + 60 < 2 ^ 63 ∧ asI64 (asI64 n + 60) = n + 60 := by
  unfold asI64
  omega

theorem grace_of_asI64 {n : Nat} (hn : n < 2 ^ 64) (h : asI64 (asI64 n + 60) = n + 60) :
    n + 60 < 2 ^ 63 := by
  unfold asI64 at h
  omega

namespace TimeoutDemo

def submitted (n : Nat) : SubmitTaskReq where
  groupName := "alice"
  tags := []
  labels := []
  timeout := n
  priority := 0
  taskSpec := ⟨[], [], [], false, none⟩

def db : Db where
  users := .empty
  groups := .empty
  userGroup := .empty
  workers := .empty
  groupWorker := .empty
  activeTasks := .empty
  archivedTasks := .empty
  artifacts := .empty
  workerSeq := 1
  taskSeq := 1

def task (n : Nat) : ActiveTask :=
  Service.newTask 1 (submitted n) (1, ⟨"alice", 1, .active, 0, 0, 0⟩) 7 0

theorem accepted (n : Nat) :
    Accepted n 1 { db with activeTasks := db.activeTasks.set 1 (task n), taskSeq := 2 } := by
  have hq : Db.insertTask (task n) db = .ok ((1, task n),
      { db with activeTasks := db.activeTasks.set 1 (task n), taskSeq := 2 }) := by
    rw [Db.insertTask, if_neg (by exact Bool.false_ne_true)]
    rfl
  exact .submitted 0 (rfl : (submitted n).timeout = n) hq

end TimeoutDemo

theorem exists_accepted (n : Nat) : ∃ t db task, Accepted n t db ∧
    db.activeTasks.find t = some task ∧ task.timeout = asI64 n :=
  ⟨1, _, TimeoutDemo.task n, TimeoutDemo.accepted n, Table.find_set_self _ _ _, by
    rw [TimeoutDemo.task, Service.newTask, TimeoutDemo.submitted]⟩

/-- A timeout is kept if and only if it and the grace period fit an `i64` and the worker's clock
does not run over before it ends. -/
theorem timeout_kept_iff {n : Nat} (clock : Nat) (hn : n < 2 ^ 64) :
    TimeoutKept n clock ↔ n + 60 < 2 ^ 63 ∧ clock + n < 2 ^ 63 := by
  constructor
  · intro h
    obtain ⟨t, db, task, ha, ht, heq⟩ := exists_accepted n
    have hgrace := (h.grace ha ht).2
    rw [heq] at hgrace
    refine ⟨grace_of_asI64 hn hgrace, ?_⟩
    have hex := h.executed ⟨0, 0, n, none, ⟨[], [], [], false, none⟩⟩ rfl
    exact (execTimes_eq_iff.1 hex).2
  · rintro ⟨hgrace, hclock⟩
    constructor
    · intro faults rest s s' w resp hr ha
      obtain ⟨task, ht, heq⟩ := Service.runs_fetchTask_timeout hr
      rw [heq, ha.timeout ht, asU64_asI64 hn]
    · intro db t task ha ht
      rw [ha.timeout ht]
      exact asI64_grace hgrace
    · intro faults rest s s' w worker t task r hr hw hgone hassigned ha ht
      obtain ⟨t', task', hassigned', ht', hlate⟩ := Service.runs_heartbeat hw hr hgone
      obtain rfl := Option.some.inj (hassigned.symm.trans hassigned')
      obtain rfl := Option.some.inj (ht.symm.trans ht')
      rw [ha.timeout ht, (asI64_grace hgrace).2] at hlate
      exact hlate
    · intro task htask
      have hu : task.timeout + 60 < 2 ^ 64 := by omega
      have hi : clock + task.timeout < 2 ^ 63 := by omega
      have hex := execTimes_eq_iff.2 ⟨hu, hi⟩
      rw [htask] at hex
      exact hex

/-- A timeout of one day is kept. -/
theorem day_kept : 86400 < 2 ^ 64 ∧ TimeoutKept 86400 1000 :=
  ⟨by decide, (timeout_kept_iff 1000 (by decide)).2 (by decide)⟩

namespace TimeoutDemo

/-- A worker that has just fetched a task with the largest timeout that fits an `i64`. -/
def running : Db :=
  { db with
    workers := Table.empty.set 1 ⟨9, 1, [], [], 0, 0, .normal, 0, some 1⟩
    activeTasks := Table.empty.set 1
      { task (2 ^ 63 - 1) with state := .running, assignedWorker := some 1 } }

end TimeoutDemo

open TimeoutDemo in
/-- The first heartbeat of a worker removes it where the sum with the grace period overflows. -/
theorem largest_timeout_lost :
    (Service.runs (Service.heartbeat 1) (List.replicate 11 none)
        (.serving running)).map (fun r => (r.1.isOk, r.2.2.db.workers.find 1)) =
      some (true, none) ∧ ¬TimeoutKept (2 ^ 63 - 1) 0 := by
  refine ⟨by decide +kernel, ?_⟩
  intro h
  have hgrace := ((timeout_kept_iff 0 (by decide)).1 h).1
  exact absurd hgrace (by decide)

end Mitosis
