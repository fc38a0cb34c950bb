import Mitosis.Commit
import Mitosis.Proof.Effects

namespace Mitosis
set_option autoImplicit true

namespace Archiving

/-- The columns of `archived_tasks`. -/
inductive Column where
  | id | creatorId | groupId | taskId | uuid | tags | labels | createdAt | updatedAt | state
  | assignedWorker | timeout | priority | spec | result | upstreamTaskUuid | downstreamTaskUuid
  | reporterUuid
  deriving DecidableEq

inductive Value where
  | null
  | bigint (n : Int)
  | integer (n : Int)
  | uuid (uuid : Uuid)
  | texts (texts : List String)
  | time (time : Instant)
  | state (state : TaskState)
  | spec (spec : TaskSpec)
  | result (result : TaskResultSpec)

def Value.nullable (f : α → Value) : Option α → Value
  | none => .null
  | some a => f a

def activeRow (id : TaskId) (task : ActiveTask) : Column → Option Value
  | .id => some (.bigint id)
  | .creatorId => some (.bigint task.creatorId)
  | .groupId => some (.bigint task.groupId)
  | .taskId => some (.bigint task.taskId)
  | .uuid => some (.uuid task.uuid)
  | .tags => some (.texts task.tags)
  | .labels => some (.texts task.labels)
  | .createdAt => some (.time task.createdAt)
  | .updatedAt => some (.time task.updatedAt)
  | .state => some (.state task.state)
  | .assignedWorker => some (.nullable (fun w : WorkerId => .bigint w) task.assignedWorker)
  | .timeout => some (.bigint task.timeout)
  | .priority => some (.integer task.priority)
  | .spec => some (.spec task.spec)
  | .result => some (.nullable .result task.result)
  | .upstreamTaskUuid => some (.nullable .uuid task.upstreamTaskUuid)
  | .downstreamTaskUuid => some (.nullable .uuid task.downstreamTaskUuid)
  | .reporterUuid => none

def archivedRow (id : TaskId) (task : ArchivedTask) : Column → Value
  | .id => .bigint id
  | .creatorId => .bigint task.creatorId
  | .groupId => .bigint task.groupId
  | .taskId => .bigint task.taskId
  | .uuid => .uuid task.uuid
  | .tags => .texts task.tags
  | .labels => .texts task.labels
  | .createdAt => .time task.createdAt
  | .updatedAt => .time task.updatedAt
  | .state => .state task.state
  | .assignedWorker => .nullable (fun w : WorkerId => .bigint w) task.assignedWorker
  | .timeout => .bigint task.timeout
  | .priority => .integer task.priority
  | .spec => .spec task.spec
  | .result => .nullable .result task.result
  | .upstreamTaskUuid => .nullable .uuid task.upstreamTaskUuid
  | .downstreamTaskUuid => .nullable .uuid task.downstreamTaskUuid
  | .reporterUuid => .nullable .uuid task.reporterUuid

inductive Expr where
  | col (column : Column)
  | value (value : Value)

def Expr.eval (row : Column → Option Value) : Expr → Option Value
  | col column => row column
  | value v => some v

def insertSelect (columns : List Column) (exprs : List Expr) (row : Column → Option Value) :
    Option (Column → Option Value) := do
  guard (exprs.length = columns.length)
  let values ← exprs.mapM (Expr.eval row)
  return fun column => (columns.zip values).lookup column

/-- `columns` of the INSERT of `cancel_tasks_by_filter`. -/
def filterColumns : List Column :=
  [.id, .creatorId, .groupId, .taskId, .uuid, .tags, .labels, .createdAt, .updatedAt, .state,
    .assignedWorker, .timeout, .priority, .spec, .result, .upstreamTaskUuid, .downstreamTaskUuid,
    .reporterUuid]

/-- `select_from_cte` of `cancel_tasks_by_filter`. -/
def filterExprs (now : Instant) : List Expr :=
  [.col .id, .col .creatorId, .col .groupId, .col .taskId, .col .uuid, .col .tags, .col .labels,
    .col .createdAt, .value (.time now), .value (.state .cancelled), .col .assignedWorker,
    .col .timeout, .col .priority, .col .spec, .value (.result .userCancellation),
    .col .upstreamTaskUuid, .col .downstreamTaskUuid, .value .null]

/-- `columns` of the INSERT of `cancel_tasks_by_uuids`. -/
def uuidsColumns : List Column :=
  [.id, .creatorId, .groupId, .taskId, .uuid, .tags, .labels, .createdAt, .updatedAt, .state,
    .assignedWorker, .timeout, .priority, .spec, .result, .upstreamTaskUuid, .downstreamTaskUuid,
    .reporterUuid]

/-- `select_from_cte` of `cancel_tasks_by_uuids`. -/
def uuidsExprs (now : Instant) : List Expr :=
  [.col .id, .col .creatorId, .col .groupId, .col .taskId, .col .uuid, .col .tags, .col .labels,
    .col .createdAt, .value (.time now), .value (.state .cancelled), .col .assignedWorker,
    .col .timeout, .col .priority, .col .spec, .value (.result .userCancellation),
    .col .upstreamTaskUuid, .col .downstreamTaskUuid, .value .null]

/-- The row that a path archives for an active one. -/
abbrev Copy := TaskId → ActiveTask → Option (Column → Option Value)

def userCopy (now : Instant) : Copy := fun id task =>
  some fun column => some (archivedRow id (Db.cancelledTask now task) column)

def filterCopy (now : Instant) : Copy := fun id task =>
  insertSelect filterColumns (filterExprs now) (activeRow id task)

def uuidsCopy (now : Instant) : Copy := fun id task =>
  insertSelect uuidsColumns (uuidsExprs now) (activeRow id task)

def commitCopy (res : TaskResultSpec) (workerUuid : Uuid) (now : Instant) : Copy :=
  fun id task =>
    some fun column => some (archivedRow id (Service.committedTask task res workerUuid now) column)

def kept : List Column :=
  [.id, .creatorId, .groupId, .taskId, .uuid, .tags, .labels, .createdAt, .assignedWorker, .timeout,
    .priority, .spec, .upstreamTaskUuid, .downstreamTaskUuid]

structure CopyOf (row : Column → Option Value) (state : TaskState) (result : TaskResultSpec)
    (reporter : Option Uuid) (now : Instant) (new : Column → Option Value) : Prop where
  kept : ∀ column ∈ kept, new column = row column
  state : new .state = some (.state state)
  result : new .result = some (.result result)
  reporter : new .reporterUuid = some (.nullable .uuid reporter)
  updatedAt : new .updatedAt = some (.time now)

theorem copyOf_of_row {id : TaskId} {task : ActiveTask} {archived : ArchivedTask}
    {result : TaskResultSpec}
    (h : ∀ column ∈ kept, some (archivedRow id archived column) = activeRow id task column)
    (hr : archived.result = some result) :
    CopyOf (activeRow id task) archived.state result archived.reporterUuid archived.updatedAt
      fun column => some (archivedRow id archived column) := by
  constructor
  · exact h
  · rfl
  · rw [archivedRow, hr]
    rfl
  · rfl
  · rfl

theorem cancelled_kept (now : Instant) (id : TaskId) (task : ActiveTask) :
    ∀ column ∈ kept,
      some (archivedRow id (Db.cancelledTask now task) column) = activeRow id task column := by
  simp only [kept, List.forall_mem_cons, List.not_mem_nil, false_imp_iff, implies_true, and_true]
  exact ⟨rfl, rfl, rfl, rfl, rfl, rfl, rfl, rfl, rfl, rfl, rfl, rfl, rfl, rfl⟩

theorem committed_kept (res : TaskResultSpec) (workerUuid : Uuid) (now : Instant) (id : TaskId)
    (task : ActiveTask) : ∀ column ∈ kept,
      some (archivedRow id (Service.committedTask task res workerUuid now) column) =
        activeRow id task column := by
  simp only [kept, List.forall_mem_cons, List.not_mem_nil, false_imp_iff, implies_true, and_true]
  exact ⟨rfl, rfl, rfl, rfl, rfl, rfl, rfl, rfl, rfl, rfl, rfl, rfl, rfl, rfl⟩

/-- The positions of the columns agree with those of the expressions. -/
theorem filterCopy_eq (now : Instant) (id : TaskId) (task : ActiveTask) :
    filterCopy now id task = userCopy now id task := by
  apply congrArg some
  funext column
  cases column <;> rfl

theorem uuidsCopy_eq (now : Instant) (id : TaskId) (task : ActiveTask) :
    uuidsCopy now id task = userCopy now id task := by
  apply congrArg some
  funext column
  cases column <;> rfl

theorem userCopy_copyOf (now : Instant) (id : TaskId) (task : ActiveTask) :
    ∃ new, userCopy now id task = some new ∧
      CopyOf (activeRow id task) .cancelled ⟨0, some .userCancellation⟩ none now new :=
  ⟨_, rfl, copyOf_of_row (cancelled_kept now id task) rfl⟩

theorem commitCopy_copyOf (res : TaskResultSpec) (workerUuid : Uuid) (now : Instant)
    (id : TaskId) (task : ActiveTask) : ∃ new, commitCopy res workerUuid now id task = some new ∧
      CopyOf (activeRow id task) task.state res (some workerUuid) now new :=
  ⟨_, rfl, copyOf_of_row (committed_kept res workerUuid now id task) rfl⟩

/-- The copies replace the rows of `active_tasks` that they are made of, and no other row
changes. -/
structure Moves (db db' : Db) (copies : TaskId → Option ArchivedTask) : Prop where
  active : ∀ t, db'.activeTasks.find t =
    if (copies t).isSome then none else db.activeTasks.find t
  fresh : ∀ t row, copies t = some row → db.archivedTasks.find t = none
  archived : ∀ t, db'.archivedTasks.find t = (copies t).or (db.archivedTasks.find t)
  others : db' = { db with activeTasks := db'.activeTasks, archivedTasks := db'.archivedTasks }

def Archives (copy : Copy) (db db' : Db) : Prop :=
  ∃ copies, Moves db db' copies ∧ ∀ t row, copies t = some row →
    ∃ task, db.activeTasks.find t = some task ∧
      copy t task = some fun column => some (archivedRow t row column)

def released (w : WorkerId) (now : Instant) (worker : Worker) (db : Db) : Db :=
  let db := { db with workers := db.workers.update w fun worker =>
    { worker with updatedAt := now, assignedTaskId := none } }
  match worker.state with
  | .normal => db
  | .gracefulShutdown => db.withoutWorkers fun id => id = w

def Triggers (downstream : Option Uuid) (now : Instant) (db db' : Db) : Prop :=
  db = db' ∨ ∃ uuid id task, downstream = some uuid ∧ db.activeTasks.find id = some task ∧
    task.uuid = uuid ∧ task.state = .pending ∧
    db' = { db with activeTasks := db.activeTasks.update id fun task =>
      { task with state := .ready, updatedAt := now } }

def Commits (copy : Copy) (w : WorkerId) (t : TaskId) (now : Instant) (db db' : Db) : Prop :=
  db = db' ∨ ∃ task worker row db₁, db.activeTasks.find t = some task ∧
    db.workers.find w = some worker ∧
    Moves db db₁ (fun t' => if t' = t then some row else none) ∧
    copy t task = some (fun column => some (archivedRow t row column)) ∧
    Triggers task.downstreamTaskUuid now (released w now worker db₁) db'

theorem Moves.refl (db : Db) : Moves db db fun _ => none := by
  constructor
  · intro t
    rfl
  · intro t row h
    cases h
  · intro t
    rfl
  · rfl

theorem Moves.trans {copies copies' : TaskId → Option ArchivedTask} (h : Moves db db₁ copies)
    (h' : Moves db₁ db' copies') : Moves db db' fun t => (copies t).or (copies' t) := by
  have hnew : ∀ t row, copies' t = some row →
      copies t = none ∧ db.archivedTasks.find t = none := by
    intro t row hr
    have hf := h'.fresh t row hr
    rw [h.archived t, Option.or_eq_none_iff] at hf
    exact hf
  constructor
  · intro t
    rw [h'.active t, h.active t]
    cases copies t <;> cases copies' t <;> rfl
  · intro t row hr
    rcases Option.or_eq_some_iff.1 hr with hr | ⟨-, hr⟩
    · exact h.fresh t row hr
    · exact (hnew t row hr).2
  · intro t
    rw [h'.archived t, h.archived t]
    cases hr : copies' t with
    | none => rw [Option.or_none, Option.none_or]
    | some row =>
      rw [(hnew t row hr).1]
      rfl
  · rw [h'.others, h.others]

/-- The task was active, and is archived. -/
structure Archived (db db' : Db) (t : TaskId) (task : ActiveTask) : Prop where
  was : db.activeTasks.find t = some task
  gone : db'.activeTasks.find t = none
  row : ∃ row, db'.archivedTasks.find t = some row

theorem Moves.archived_of {copies : TaskId → Option ArchivedTask} (h : Moves db db' copies)
    (hc : copies t = some row) (ht : db.activeTasks.find t = some task) :
    Archived db db' t task := by
  refine ⟨ht, ?_, row, ?_⟩
  · rw [h.active, hc]
    rfl
  · rw [h.archived, hc]
    rfl

theorem Archived.moves {copies : TaskId → Option ArchivedTask} (ha : Archived db db₁ t task)
    (h : Moves db₁ db' copies) : Archived db db' t task := by
  obtain ⟨was, gone, row, hrow⟩ := ha
  refine ⟨was, ?_, ?_⟩
  · rw [h.active, gone, ite_self]
  · rw [h.archived, hrow]
    cases copies t with
    | none => exact ⟨row, rfl⟩
    | some row' => exact ⟨row', rfl⟩

theorem Moves.archived_later {copies : TaskId → Option ArchivedTask} (h : Moves db db₁ copies)
    (ha : Archived db₁ db' t task) : Archived db db' t task := by
  refine ⟨?_, ha.gone, ha.row⟩
  have hw := ha.was
  rw [h.active] at hw
  split at hw
  next => cases hw
  next => exact hw

theorem Archives.refl (copy : Copy) (db : Db) : Archives copy db db := by
  refine ⟨_, .refl db, ?_⟩
  intro t row h
  cases h

theorem Archives.trans {copy : Copy} (h : Archives copy db db₁) (h' : Archives copy db₁ db') :
    Archives copy db db' := by
  obtain ⟨copies, hm, hc⟩ := h
  obtain ⟨copies', hm', hc'⟩ := h'
  refine ⟨_, hm.trans hm', ?_⟩
  intro t row hr
  rcases Option.or_eq_some_iff.1 hr with hr | ⟨-, hr⟩
  · exact hc t row hr
  · obtain ⟨task, ht, hcopy⟩ := hc' t row hr
    rw [hm.active t] at ht
    split at ht
    next => cases ht
    next => exact ⟨task, ht, hcopy⟩

theorem moves_archive {tasks : Table TaskId ArchivedTask} {r : Unit}
    (h : Db.archive tasks db = .ok (r, db')) : Moves db db' tasks.find := by
  obtain ⟨hc, rfl⟩ := Db.archive_ok h
  constructor
  · intro t
    simp only [Table.find_deleteWhere]
    cases tasks.find t <;> cases db.activeTasks.find t <;> rfl
  · intro t row hr
    exact Db.archiveConflict_find (hc (t, row) (Table.mem_rows.2 hr))
  · intro t
    exact Table.find_merge _ _ _
  · rfl

theorem archives_select {copy : Copy} {r : Unit} {now : Instant} {p : TaskId → ActiveTask → Bool}
    (hcopy : ∀ id task, copy id task = userCopy now id task)
    (h : Db.archive ((db.activeTasks.select p).mapRows (Db.cancelledTask now)) db =
      .ok (r, db')) : Archives copy db db' := by
  refine ⟨_, moves_archive h, ?_⟩
  intro t row hr
  rw [Table.find_mapRows, Table.find_select] at hr
  obtain ⟨task, ht, rfl⟩ := Option.map_eq_some_iff.1 hr
  exact ⟨task, (Option.filter_eq_some_iff.1 ht).1, hcopy t task⟩

theorem archived_select {r : Unit} {now : Instant} {p : TaskId → ActiveTask → Bool}
    (h : Db.archive ((db.activeTasks.select p).mapRows (Db.cancelledTask now)) db =
      .ok (r, db')) (ht : (db.activeTasks.select p).find t = some task) :
    Archived db db' t task := by
  have hc : ((db.activeTasks.select p).mapRows (Db.cancelledTask now)).find t =
      some (Db.cancelledTask now task) := by
    rw [Table.find_mapRows, ht]
    rfl
  rw [Table.find_select] at ht
  exact (moves_archive h).archived_of hc (Option.filter_eq_some_iff.1 ht).1

theorem moves_one {t : TaskId} {row : ArchivedTask}
    (hc : db.archiveConflict t row = false) :
    Moves db { db with
      archivedTasks := db.archivedTasks.set t row
      activeTasks := db.activeTasks.erase t } fun t' => if t' = t then some row else none := by
  constructor
  · intro t'
    simp only [Table.find_erase]
    split <;> rfl
  · intro t' row' hr
    split at hr
    next ht =>
      rw [ht]
      exact Db.archiveConflict_find hc
    next => cases hr
  · intro t'
    simp only [Table.find_set]
    split <;> rfl
  · rfl

open Service

theorem userCancelTask_archives (c : Instant) (userId : UserId) (uuid : Uuid) :
    Does c (Archives (userCopy c)) (userCancelTask userId uuid) := by
  apply Does.before
  · apply does_write (Archives.refl _)
    intro db t db' h
    obtain ⟨task, ht, -, hc, rfl⟩ := Db.cancelTask_ok h
    refine ⟨_, moves_one hc, ?_⟩
    intro t' row hr
    split at hr
    next heq =>
      obtain rfl := Option.some.inj hr
      exact ⟨task, heq ▸ ht, heq ▸ rfl⟩
    next => cases hr
  · intro id
    exact does_ignore (does_sendTask _ _)

theorem does_nonempty (msg : String) (xs : Option (List α)) : Does c Eq (nonempty msg xs) :=
  .ite _ (does_fail _) (does_ok _)

theorem does_queriedGroup (userId : UserId) (name : Option String) :
    Does c Eq (queriedGroup userId name) := by
  cases name with
  | some name => exact does_ok name
  | none =>
    apply (does_select _).after _ fun _ => rfl
    intro user
    exact (does_okOr _ _).after (fun _ => does_ok _) fun _ => rfl

theorem does_checkRole (userId : UserId) (groupName : String) (role : UserGroupRole) :
    Does c Eq (checkRole userId groupName role) := by
  apply (does_select _).after _ fun _ => rfl
  intro found
  cases found with
  | none => exact does_fail _
  | some r => exact .ite _ (does_ok _) (does_fail _)

theorem does_checkTaskListQuery (userId : UserId) (query : TasksQueryReq) (role : UserGroupRole) :
    Does c Eq (checkTaskListQuery userId query role) := by
  have hrefl (db : Db) : db = db := rfl
  apply (does_nonempty _ _).after _ hrefl
  intro _
  apply (does_nonempty _ _).after _ hrefl
  intro _
  apply (does_nonempty _ _).after _ hrefl
  intro _
  apply (does_nonempty _ _).after _ hrefl
  intro _
  apply (does_queriedGroup _ _).after _ hrefl
  intro groupName
  apply (does_checkRole _ _ _).after _ hrefl
  intro _
  exact does_ok _

theorem cancelTasksByFilter_archives (c : Instant) (userId : UserId)
    (req : TasksCancelByFilterReq) :
    Does c (Archives (filterCopy c)) (cancelTasksByFilter userId req) := by
  apply (does_checkTaskListQuery _ _ _).after _ (Archives.refl _)
  intro ⟨query, groupName⟩
  apply (does_ofExcept _).after _ (Archives.refl _)
  intro filter
  apply Does.before
  · apply does_write (Archives.refl _)
    intro db ids db' h
    exact archives_select (filterCopy_eq c) (Db.cancelTasksByFilter_ok h).2
  · intro ids
    exact (does_removeTasks ids).after (fun _ => does_ok _) fun _ => rfl

theorem cancelChunks_archives (c : Instant) (userId : UserId) (chunks : List (List Uuid)) :
    Does c (Archives (uuidsCopy c)) (cancelChunks userId chunks) := by
  induction chunks with
  | nil =>
    apply (does_ok _).mono
    rintro db _ rfl
    exact Archives.refl _ db
  | cons chunk chunks ih =>
    refine Does.bind (R := Archives (uuidsCopy c)) ?_ (fun found => ih.before fun _ => does_ok _)
      (fun _ _ h => h) fun _ _ _ => Archives.trans
    apply does_write (Archives.refl _)
    intro db found db' h
    exact archives_select (uuidsCopy_eq c) (Db.cancelTasksByUuids_ok h).2

theorem cancelTasksByUuids_archives (c : Instant) (userId : UserId) (uuids : List Uuid) :
    Does c (Archives (uuidsCopy c)) (cancelTasksByUuids userId uuids) := by
  apply Does.ite
  · apply (does_fail _).mono
    rintro db _ rfl
    exact Archives.refl _ db
  · apply (cancelChunks_archives c userId _).before
    intro found
    exact (does_removeTasks _).after (fun _ => does_ok _) fun _ => rfl

theorem okOr_some_bind (e : Error) (a : α) (f : α → Service β) : okOr e (some a) >>= f = f a := rfl

theorem workerTriggerPendingTask_triggers (c : Instant) (uuid : Uuid) :
    Does c (Triggers (some uuid) c) (workerTriggerPendingTask uuid) := by
  intro faults rest s s' r hc hr
  obtain ⟨found, faults₁, s₁, h₁, h⟩ | ⟨e, h₁, -⟩ := runs_bind hr
  swap
  · obtain ⟨rfl, -⟩ := runs_select h₁
    exact ⟨hc, .inl rfl⟩
  obtain ⟨rfl, rfl⟩ := runs_select_ok h₁
  cases hf : s.db.findPendingTask uuid with
  | none =>
    simp only [Select.eval, hf] at h
    obtain ⟨⟩ := h
    exact ⟨hc, .inl rfl⟩
  | some row =>
    obtain ⟨id, task⟩ := row
    simp only [Select.eval, hf] at h
    rw [okOr_some_bind] at h
    obtain ⟨ht, hu, hst⟩ := Db.findPendingTask_some hf
    obtain ⟨time, faults₂, s₂, h₁, h⟩ | ⟨e, h₁, -⟩ := runs_bind h
    swap
    · obtain ⟨_, _, hr, _⟩ := runs_now h₁
      cases hr
    obtain ⟨fault, -, htime, rfl⟩ := runs_now h₁
    obtain rfl : time = c := (Except.ok.inj htime).trans hc
    have hdoes : Does time (fun db db' => db.activeTasks.find id = some task →
        Triggers (some uuid) time db db') (do
          let task ← write (.triggerTask id time)
          let workers ← select (.eligibleWorkers .anyWriteAdmin task.groupId task.tags)
          sendTask (.batchAddTask workers id task.priority) "send batch add task failed") := by
      apply Does.before
      · apply does_write fun _ _ => .inl rfl
        intro db task' db' hq hf
        obtain ⟨_, -, -, rfl⟩ := Db.updateTask_ok hq
        exact .inr ⟨uuid, id, task, rfl, hf, hu, hst, rfl⟩
      · intro task
        exact (does_select _).after (fun _ => does_sendTask _ _) fun _ => rfl
    obtain ⟨hc', hdb⟩ := hdoes hc h
    exact ⟨hc', hdb ht⟩

theorem triggerDownstream_triggers (c : Instant) (downstream : Option Uuid) :
    Does c (Triggers downstream c) (triggerDownstream downstream) := by
  cases downstream with
  | none =>
    apply (does_ok _).mono
    rintro db _ rfl
    exact .inl rfl
  | some uuid => exact workerTriggerPendingTask_triggers c uuid

theorem does_unregisterGraceful (w : WorkerId) (st : WorkerState) :
    Does c Eq (unregisterGraceful w st) := by
  cases st with
  | normal => exact does_ok _
  | gracefulShutdown =>
    exact (does_sendTask _ _).after (fun _ => does_sendHeartbeat _ _) fun _ => rfl

theorem concludeCommit_triggers (c : Instant) (w : WorkerId) (t : TaskId)
    (downstream : Option Uuid) (st : WorkerState) :
    Does c (Triggers downstream c) (concludeCommit w t downstream st) := by
  apply Does.after (does_ignore (does_sendTask _ _)) _ fun _ => .inl rfl
  intro _
  exact (triggerDownstream_triggers c downstream).before fun _ => does_unregisterGraceful w st

theorem commitTask_released {now : Instant} {worker : Worker} (hw : db.workers.find w = some worker)
    (h : Db.commitTask w t row now db = .ok (st, db')) :
    db.archiveConflict t row = false ∧ db' = released w now worker { db with
      archivedTasks := db.archivedTasks.set t row
      activeTasks := db.activeTasks.erase t } := by
  obtain ⟨hc, worker', hw', -, hdb⟩ := Db.commitTask_ok h
  obtain rfl := Option.some.inj (hw.symm.trans hw')
  refine ⟨hc, ?_⟩
  rcases hdb with ⟨hst, rfl⟩ | ⟨hst, rfl⟩ <;>
  · rw [released, hst]
    rfl

theorem reportTask_commits (c : Instant) (w : WorkerId) (workerUuid : Uuid) (t : TaskId)
    (res : TaskResultSpec) : Does c (Commits (commitCopy res workerUuid c) w t c)
      (reportTask w workerUuid t (.commit res)) := by
  intro faults rest s s' r hc hr
  rcases reportTask_commit_runs hr with
    ⟨-, rfl, -⟩ | ⟨task, worker, fault, rest₁, db, r', ht, hw, -, -, hq, h, -⟩
  · exact ⟨hc, .inl rfl⟩
  · obtain ⟨hconflict, hdb⟩ := commitTask_released hw hq
    obtain ⟨hc', htr⟩ := concludeCommit_triggers c w t task.downstreamTaskUuid worker.state
      (by exact hc) h
    rw [hc] at hconflict hdb
    refine ⟨hc', .inr ⟨task, worker, _, _, ht, hw, moves_one hconflict, rfl, ?_⟩⟩
    rw [← hdb]
    exact htr

theorem userCancelTask_archived
    (h : runs (userCancelTask userId uuid) faults s = some (.ok (), (rest, s'))) :
    ∃ t task, task.uuid = uuid ∧ Archived s.db s'.db t task := by
  obtain ⟨t, _, _, hw, h⟩ := runs_bind_ok h
  obtain ⟨db, hq, rfl⟩ := runs_write_ok hw
  obtain ⟨task, ht, ⟨hu, -⟩, hc, rfl⟩ := Db.cancelTask_ok hq
  obtain ⟨-, hdb⟩ := does_ignore (does_sendTask _ _) rfl h
  rw [← hdb]
  exact ⟨t, task, hu, (moves_one hc).archived_of (if_pos rfl) ht⟩

theorem cancelTasksByFilter_archived
    (h : runs (cancelTasksByFilter userId req) faults s = some (.ok resp, (rest, s'))) :
    ∃ ids : List TaskId, ids.Nodup ∧ resp.cancelledCount = ids.length ∧
      ∀ t ∈ ids, ∃ task, Archived s.db s'.db t task := by
  obtain ⟨⟨query, groupName⟩, _, _, hcheck, h⟩ := runs_bind_ok h
  obtain ⟨-, hdb⟩ := does_checkTaskListQuery _ _ _ rfl hcheck
  obtain ⟨filter, _, _, hf, h⟩ := runs_bind_ok h
  obtain ⟨rfl, -⟩ := runs_ofExcept hf
  obtain ⟨ids, _, _, hw, h⟩ := runs_bind_ok h
  obtain ⟨db, hq, rfl⟩ := runs_write_ok hw
  obtain ⟨_, _, _, hr, h⟩ := runs_bind_ok h
  obtain ⟨-, hdb'⟩ := does_removeTasks _ rfl hr
  obtain ⟨⟩ := h
  obtain ⟨rfl, ha⟩ := Db.cancelTasksByFilter_ok hq
  refine ⟨_, Table.keysNodup _, rfl, ?_⟩
  intro t ht
  obtain ⟨task, hfind⟩ := Table.mem_keys.1 ht
  rw [hdb, ← hdb']
  exact ⟨task, archived_select ha hfind⟩

theorem cancelChunks_archived
    (h : runs (cancelChunks userId chunks) faults s = some (.ok found, (rest, s'))) :
    ∀ e ∈ found, ∃ task, task.uuid = e.2 ∧ Archived s.db s'.db e.1 task := by
  induction chunks generalizing faults s found with
  | nil =>
    obtain ⟨⟩ := h
    intro e he
    cases he
  | cons chunk chunks ih =>
    obtain ⟨found₁, _, _, hw, h⟩ := runs_bind_ok h
    obtain ⟨db, hq, rfl⟩ := runs_write_ok hw
    obtain ⟨found₂, _, _, hrest, h⟩ := runs_bind_ok h
    obtain ⟨⟩ := h
    obtain ⟨rfl, ha⟩ := Db.cancelTasksByUuids_ok hq
    obtain ⟨-, copies, hm, -⟩ := cancelChunks_archives s.clock userId chunks (by rfl) hrest
    intro e he
    rcases List.mem_append.1 he with he | he
    · obtain ⟨⟨t, task⟩, hmem, rfl⟩ := List.mem_map.1 he
      exact ⟨task, rfl, (archived_select ha (Table.mem_rows.1 hmem)).moves hm⟩
    · obtain ⟨task, hu, har⟩ := ih hrest e he
      exact ⟨task, hu, (moves_archive ha).archived_later har⟩

theorem cancelTasksByUuids_archived
    (h : runs (cancelTasksByUuids userId uuids) faults s = some (.ok resp, (rest, s'))) :
    ∀ uuid ∈ uuids, uuid ∉ resp.failedUuids →
      ∃ t task, task.uuid = uuid ∧ Archived s.db s'.db t task := by
  unfold cancelTasksByUuids at h
  split at h
  next => cases h
  next =>
    obtain ⟨found, _, _, hc, h⟩ := runs_bind_ok h
    obtain ⟨_, _, _, hr, h⟩ := runs_bind_ok h
    obtain ⟨-, hdb⟩ := does_removeTasks _ rfl hr
    obtain ⟨⟩ := h
    intro uuid hm hnot
    have hin : uuid ∈ found.map Prod.snd := by
      by_contra hn
      exact hnot (List.mem_filter.2 ⟨hm, decide_eq_true hn⟩)
    obtain ⟨e, he, rfl⟩ := List.mem_map.1 hin
    obtain ⟨task, hu, ha⟩ := cancelChunks_archived hc e he
    rw [← hdb]
    exact ⟨e.1, task, hu, ha⟩

theorem Archived.triggers {now : Instant} (ha : Archived db db₁ t task)
    (h : Triggers downstream now db₁ db') : Archived db db' t task := by
  rcases h with rfl | ⟨_, id, _, -, -, -, -, rfl⟩
  · exact ha
  · refine ⟨ha.was, ?_, ha.row⟩
    simp only [Table.find_update, ha.gone]
    split <;> rfl

theorem Archived.released (ha : Archived db db₁ t task) (w : WorkerId) (now : Instant)
    (worker : Worker) : Archived db (released w now worker db₁) t task := by
  unfold Archiving.released
  cases worker.state <;> exact ⟨ha.was, ha.gone, ha.row⟩

theorem reportTask_commit_archived
    (h : runs (reportTask w workerUuid t (.commit res)) faults s = some (.ok r, (rest, s'))) :
    ∃ task, Archived s.db s'.db t task := by
  rcases reportTask_commit_runs h with
    ⟨⟨e, he⟩, -, -⟩ | ⟨task, worker, fault, rest₁, db, r', ht, hw, -, -, hq, h, -⟩
  · cases he
  · obtain ⟨hconflict, rfl⟩ := commitTask_released hw hq
    obtain ⟨-, htr⟩ :=
      concludeCommit_triggers s.clock w t task.downstreamTaskUuid worker.state (by rfl) h
    have ha := (moves_one hconflict).archived_of (if_pos rfl) ht
    exact ⟨task, (ha.released w s.clock worker).triggers htr⟩

/-- A call that succeeds has archived what it was asked for: the task, as many tasks as it
answers, or every task but those that it names as failed. -/
structure Effective : Prop where
  userCancelTask : ∀ userId uuid faults rest s s',
    runs (userCancelTask userId uuid) faults s = some (.ok (), (rest, s')) →
      ∃ t task, task.uuid = uuid ∧ Archived s.db s'.db t task
  cancelTasksByFilter : ∀ userId req resp faults rest s s',
    runs (cancelTasksByFilter userId req) faults s = some (.ok resp, (rest, s')) →
      ∃ ids : List TaskId, ids.Nodup ∧ resp.cancelledCount = ids.length ∧
        ∀ t ∈ ids, ∃ task, Archived s.db s'.db t task
  cancelTasksByUuids : ∀ userId uuids resp faults rest s s',
    runs (cancelTasksByUuids userId uuids) faults s = some (.ok resp, (rest, s')) →
      ∀ uuid ∈ uuids, uuid ∉ resp.failedUuids →
        ∃ t task, task.uuid = uuid ∧ Archived s.db s'.db t task
  commit : ∀ w workerUuid t res r faults rest s s',
    runs (reportTask w workerUuid t (.commit res)) faults s = some (.ok r, (rest, s')) →
      ∃ task, Archived s.db s'.db t task

theorem effective : Effective where
  userCancelTask _ _ _ _ _ _ h := userCancelTask_archived h
  cancelTasksByFilter _ _ _ _ _ _ _ h := cancelTasksByFilter_archived h
  cancelTasksByUuids _ _ _ _ _ _ _ h := cancelTasksByUuids_archived h
  commit _ _ _ _ _ _ _ _ _ h := reportTask_commit_archived h

/-- The three ways to cancel archive the same row, a Commit one that keeps the same columns, a call
that succeeds archives, and no path changes another row but those of the worker and the downstream
task of a Commit. -/
theorem archived_alike (c : Instant) :
    (∀ id task, ∃ new, CopyOf (activeRow id task) .cancelled ⟨0, some .userCancellation⟩ none c new ∧
      userCopy c id task = some new ∧ filterCopy c id task = some new ∧
      uuidsCopy c id task = some new) ∧
    (∀ id task res workerUuid, ∃ new, commitCopy res workerUuid c id task = some new ∧
      CopyOf (activeRow id task) task.state res (some workerUuid) c new) ∧
    (∀ userId uuid, Does c (Archives (userCopy c)) (userCancelTask userId uuid)) ∧
    (∀ userId req, Does c (Archives (filterCopy c)) (cancelTasksByFilter userId req)) ∧
    (∀ userId uuids, Does c (Archives (uuidsCopy c)) (cancelTasksByUuids userId uuids)) ∧
    (∀ w workerUuid t res, Does c (Commits (commitCopy res workerUuid c) w t c)
      (reportTask w workerUuid t (.commit res))) ∧ Effective := by
  refine ⟨?_, ?_, userCancelTask_archives c, cancelTasksByFilter_archives c,
    cancelTasksByUuids_archives c, reportTask_commits c, effective⟩
  · intro id task
    obtain ⟨new, hnew, hcopy⟩ := userCopy_copyOf c id task
    refine ⟨new, hcopy, hnew, ?_, ?_⟩
    · rw [filterCopy_eq, hnew]
    · rw [uuidsCopy_eq, hnew]
  · exact fun id task res workerUuid => commitCopy_copyOf res workerUuid c id task

namespace CommitDemo

def finished : ActiveTask := {
  creatorId := 1, groupId := 1, taskId := 1, uuid := 7, tags := [], labels := []
  createdAt := 0, updatedAt := 0, state := .finished, assignedWorker := some 1, timeout := 60
  priority := 0, spec := ⟨[], [], [], false, none⟩, result := none, upstreamTaskUuid := none
  downstreamTaskUuid := none }

def db : Db where
  users := Table.empty.set 1 ⟨"alice", .active⟩
  groups := Table.empty.set 1 ⟨"alice", 0, .active, 1, 0, 0⟩
  userGroup := Table.empty.set (1, 1) .admin
  workers := Table.empty.set 1 ⟨9, 1, [], [], 0, 0, .normal, 0, some 7⟩
  groupWorker := Table.empty.set (1, 1) .write
  activeTasks := Table.empty.set 7 finished
  archivedTasks := .empty
  artifacts := .empty
  workerSeq := 2
  taskSeq := 8

theorem committed : ∃ s', runs (reportTask 1 9 7 (.commit ⟨0, none⟩)) [none, none, none, none]
    (.serving db) = some (.ok none, ([], s')) ∧ s'.db.workers.find 1 ≠ db.workers.find 1 := by
  refine ⟨_, rfl, ?_⟩
  decide

end CommitDemo

/-- A Commit archives the task and also changes the row of its worker. -/
theorem commit_touches_worker : ∃ s', runs (reportTask 1 9 7 (.commit ⟨0, none⟩))
      [none, none, none, none] (.serving CommitDemo.db) = some (.ok none, ([], s')) ∧
    ¬Archives (commitCopy ⟨0, none⟩ 9 0) CommitDemo.db s'.db := by
  obtain ⟨s', h, hw⟩ := CommitDemo.committed
  refine ⟨s', h, ?_⟩
  rintro ⟨copies, hm, -⟩
  apply hw
  rw [hm.others]

end Archiving
end Mitosis
