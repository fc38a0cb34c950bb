import Mitosis.Proof.TaskHistory

namespace Mitosis
set_option autoImplicit true

/-- The columns of a task that never change. -/
structure Ident where
  creatorId : UserId
  groupId : GroupId
  taskId : Int
  uuid : Uuid
  deriving DecidableEq

def ArchivedTask.ident (task : ArchivedTask) : Ident :=
  ⟨task.creatorId, task.groupId, task.taskId, task.uuid⟩

def ActiveTask.stored (task : ActiveTask) : ArchivedTask where
  creatorId := task.creatorId
  groupId := task.groupId
  taskId := task.taskId
  uuid := task.uuid
  tags := task.tags
  labels := task.labels
  createdAt := task.createdAt
  updatedAt := task.updatedAt
  state := task.state
  assignedWorker := task.assignedWorker
  timeout := task.timeout
  priority := task.priority
  spec := task.spec
  result := task.result
  upstreamTaskUuid := task.upstreamTaskUuid
  downstreamTaskUuid := task.downstreamTaskUuid
  reporterUuid := none

def ActiveTask.ident (task : ActiveTask) : Ident := task.stored.ident

namespace Db

def row (db : Db) (t : TaskId) : Option ArchivedTask :=
  ((db.activeTasks.find t).map ActiveTask.stored).or (db.archivedTasks.find t)

def ident (db : Db) (t : TaskId) : Option Ident := (db.row t).map ArchivedTask.ident

theorem row_active {db : Db} (h : db.activeTasks.find t = some task) :
    db.row t = some task.stored := by rw [row, h, Option.map_some, Option.some_or]

theorem row_archived {db : Db} (h : db.activeTasks.find t = none) :
    db.row t = db.archivedTasks.find t := by rw [row, h, Option.map_none, Option.none_or]

theorem ident_active {db : Db} (h : db.activeTasks.find t = some task) :
    db.ident t = some task.ident := by rw [ident, row_active h, Option.map_some, ActiveTask.ident]

theorem ident_archived {db : Db} (h : db.activeTasks.find t = none) :
    db.ident t = (db.archivedTasks.find t).map ArchivedTask.ident := by
  rw [ident, row_archived h]

structure Sound (db : Db) : Prop where
  apart : ∀ t task, db.activeTasks.find t = some task → db.archivedTasks.find t = none
  uuids : ∀ t t' o o', db.ident t = some o → db.ident t' = some o' → o.uuid = o'.uuid → t = t'
  numbers : ∀ t t' o o', db.ident t = some o → db.ident t' = some o' →
    o.groupId = o'.groupId → o.taskId = o'.taskId → t = t'
  counted : ∀ t o, db.ident t = some o → ∃ group, db.groups.find o.groupId = some group ∧
    1 ≤ o.taskId ∧ o.taskId ≤ group.taskCount
  created : ∀ t o, db.ident t = some o → ∃ user, db.users.find o.creatorId = some user
  done : ∀ t row, db.archivedTasks.find t = some row →
    (row.state = .finished ∨ row.state = .cancelled) ∧ ∃ res, row.result = some res

end Db

namespace Tasks

def Write.onActive (t : TaskId) (task : ActiveTask) : Write → ActiveTask
  | .change id c time => if t = id then c.run time task else task
  | _ => task

def Write.onArchived (t : TaskId) (task : ArchivedTask) : Write → ArchivedTask
  | .changeArchived id c time => if t = id then c.run time task else task
  | _ => task

theorem Change.stored_ident (c : Change) (time : Instant) (task : ActiveTask) :
    (c.run time task).ident = task.ident := by cases c <;> rfl

theorem ArchivedChange.ident (c : ArchivedChange) (time : Instant) (task : ArchivedTask) :
    (c.run time task).ident = task.ident := by cases c <;> rfl

theorem ArchivedChange.state (c : ArchivedChange) (time : Instant) (task : ArchivedTask) :
    (c.run time task).state = task.state := by cases c <;> rfl

theorem ArchivedChange.result (c : ArchivedChange) (time : Instant) (task : ArchivedTask) :
    (c.run time task).result = task.result := by cases c <;> rfl

theorem find_update_map {ρ : Type} (table : Table TaskId ρ) (id t : TaskId) (f : ρ → ρ) :
    (table.update id f).find t = (table.find t).map fun r => if t = id then f r else r := by
  rw [Table.find_update]
  split
  next h => rw [h]
  next h => rw [Option.map_id']

namespace Write
variable {w : Write} {db : Db}

theorem plain_active (hw : w.plain) (db : Db) (t : TaskId) :
    (w.apply db).activeTasks.find t = (db.activeTasks.find t).map fun task => w.onActive t task := by
  cases w with
  | change id c time => exact find_update_map _ _ _ _
  | changeArchived | setWorker | dropWorkers => exact Option.map_id'.symm
  | _ => exact hw.elim

theorem plain_archived (hw : w.plain) (db : Db) (t : TaskId) : (w.apply db).archivedTasks.find t =
    (db.archivedTasks.find t).map fun task => w.onArchived t task := by
  cases w with
  | changeArchived id c time => exact find_update_map _ _ _ _
  | change | setWorker | dropWorkers => exact Option.map_id'.symm
  | _ => exact hw.elim

theorem plain_accounts (hw : w.plain) (db : Db) :
    (w.apply db).users = db.users ∧ (w.apply db).groups = db.groups := by
  cases w with
  | changeArchived | change | setWorker | dropWorkers => exact ⟨rfl, rfl⟩
  | _ => exact hw.elim

theorem onActive_ident (w : Write) (t : TaskId) (task : ActiveTask) :
    (w.onActive t task).ident = task.ident := by
  cases w with
  | change id c time =>
    change (if t = id then c.run time task else task).ident = _
    split
    next => exact c.stored_ident time task
    next => rfl
  | _ => rfl

theorem onArchived_done (w : Write) (t : TaskId) (task : ArchivedTask) :
    (w.onArchived t task).ident = task.ident ∧ (w.onArchived t task).state = task.state ∧
      (w.onArchived t task).result = task.result := by
  cases w with
  | changeArchived id c time =>
    simp only [onArchived]
    split
    next => exact ⟨c.ident time task, c.state time task, c.result time task⟩
    next => exact ⟨rfl, rfl, rfl⟩
  | _ => exact ⟨rfl, rfl, rfl⟩

/-- What a write of an open transaction was made from. -/
def current (w : Write) (db : Db) : Prop :=
  match w with
  | change id _ _ => ∃ task, db.activeTasks.find id = some task
  | changeArchived id _ _ => ∃ task, db.archivedTasks.find id = some task
  | addArchived id _ => db.archivedTasks.find id = none
  | archive tasks => ∀ t row, tasks.find t = some row → db.archivedTasks.find t = none ∧
    ∃ task time, db.activeTasks.find t = some task ∧ row = Db.cancelledTask time task
  | _ => True

theorem apply_active (h : .active t ∉ w.rows) :
    (w.apply db).activeTasks.find t = db.activeTasks.find t := by
  cases w with
  | addActive id task =>
    apply Table.find_set_ne
    rintro rfl
    exact h (.head _)
  | change id c time =>
    apply Table.find_update_ne
    rintro rfl
    exact h (.head _)
  | dropActive id =>
    apply Table.find_erase_ne
    rintro rfl
    exact h (.head _)
  | archive tasks =>
    have hn : tasks.find t = none := by
      rw [Table.find_none]
      intro hm
      exact h (List.mem_flatMap.2 ⟨t, hm, .head _⟩)
    change (db.activeTasks.deleteWhere fun id _ => (tasks.find id).isSome).find t = _
    rw [Table.find_deleteWhere, hn]
    cases db.activeTasks.find t <;> rfl
  | _ => rfl

theorem apply_archived (h : .archived t ∉ w.rows) :
    (w.apply db).archivedTasks.find t = db.archivedTasks.find t := by
  cases w with
  | addArchived id task =>
    apply Table.find_set_ne
    rintro rfl
    exact h (.head _)
  | changeArchived id c time =>
    apply Table.find_update_ne
    rintro rfl
    exact h (.head _)
  | archive tasks =>
    have hn : tasks.find t = none := by
      rw [Table.find_none]
      intro hm
      exact h (List.mem_flatMap.2 ⟨t, hm, .tail _ (.head _)⟩)
    change (db.archivedTasks.merge tasks).find t = _
    rw [Table.find_merge, hn, Option.none_or]
  | _ => rfl

theorem mem_rows_archive {tasks : Table TaskId ArchivedTask} (h : tasks.find t = some row) :
    .active t ∈ (archive tasks).rows ∧ .archived t ∈ (archive tasks).rows := by
  have hk : t ∈ tasks.keys := Table.mem_keys.2 ⟨row, h⟩
  exact ⟨List.mem_flatMap.2 ⟨t, hk, .head _⟩, List.mem_flatMap.2 ⟨t, hk, .tail _ (.head _)⟩⟩

theorem current_apply (w w' : Write) (db : Db) (h : ∀ k ∈ w.rows, k ∉ w'.rows)
    (hc : w.current db) : w.current (w'.apply db) := by
  cases w with
  | change id c time =>
    obtain ⟨task, ht⟩ := hc
    exact ⟨task, (apply_active (h _ (.head _))).trans ht⟩
  | changeArchived id c time =>
    obtain ⟨task, ht⟩ := hc
    exact ⟨task, (apply_archived (h _ (.head _))).trans ht⟩
  | addArchived id task => exact (apply_archived (h _ (.head _))).trans hc
  | archive tasks =>
    intro t row hr
    obtain ⟨hn, task, time, ht, he⟩ := hc t row hr
    obtain ⟨ha, har⟩ := mem_rows_archive hr
    exact ⟨(apply_archived (h _ har)).trans hn, task, time, (apply_active (h _ ha)).trans ht, he⟩
  | _ => trivial

end Write

open Txns (applyAll)

/-- The tasks of `moved` go from one table to the other. -/
structure Moved (moved : TaskId → Option ArchivedTask) (db db' : Db) : Prop where
  active : ∀ t, db'.activeTasks.find t =
    if (moved t).isSome then none else db.activeTasks.find t
  archived : ∀ t, db'.archivedTasks.find t = (moved t).or (db.archivedTasks.find t)
  accounts : db'.users = db.users ∧ db'.groups = db.groups

theorem moved_archive (tasks : Table TaskId ArchivedTask) (db : Db) :
    Moved tasks.find db ((Write.archive tasks).apply db) := by
  constructor
  · intro t
    change (db.activeTasks.deleteWhere fun id _ => (tasks.find id).isSome).find t = _
    rw [Table.find_deleteWhere]
    cases tasks.find t with
    | none => cases db.activeTasks.find t <;> rfl
    | some row => cases db.activeTasks.find t <;> rfl
  · exact Table.find_merge _ _
  · exact ⟨rfl, rfl⟩

theorem moved_one (id : TaskId) (row : ArchivedTask) (db : Db) :
    Moved (fun t => if t = id then some row else none) db
      (applyAll [Write.addArchived id row, .dropActive id] db) := by
  constructor
  · intro t
    change (db.activeTasks.erase id).find t = _
    rw [Table.find_erase]
    split
    · rfl
    · rfl
  · intro t
    change (db.archivedTasks.set id row).find t = _
    rw [Table.find_set]
    split
    · rfl
    · rfl
  · exact ⟨rfl, rfl⟩

def Done (row : ArchivedTask) : Prop :=
  (row.state = .finished ∨ row.state = .cancelled) ∧ ∃ res, row.result = some res

theorem done_cancelled (time : Instant) (task : ActiveTask) : Done (Db.cancelledTask time task) :=
  ⟨.inr rfl, _, rfl⟩

theorem Copied.done {id : TaskId} (h : Copied K id row) : Done row := by
  obtain ⟨task, -, ⟨time, rfl⟩ | ⟨w, res, wu, time, rfl, -, hs⟩⟩ := h
  · exact done_cancelled time task
  · exact ⟨hs, res, rfl⟩

theorem Copied.ident {id : TaskId} (h : Copied K id row) :
    ∃ task, Read K id task ∧ row.ident = task.ident := by
  obtain ⟨task, hr, ⟨time, rfl⟩ | ⟨w, res, wu, time, rfl, -⟩⟩ := h
  · exact ⟨task, hr, rfl⟩
  · exact ⟨task, hr, rfl⟩

inductive Commits (db : Db) (K : History) : List Write → Prop
  | plain : (∀ w ∈ ws, w.plain) → (∀ w ∈ ws, w.current db) → Commits db K ws
  | archive : (Write.archive tasks).current db → Commits db K [.archive tasks]
  | move {id : TaskId} : db.archivedTasks.find id = none → Copied K id row → (∀ w ∈ ws, w.plain) →
    Commits db K (.addArchived id row :: .dropActive id :: ws)
  | insert {id : TaskId} : insertConflict db id task = false → db.archivedTasks.find id = none →
    drawn K = some (task.groupId, task.taskId) → fresh K = some task.uuid →
    Commits db K [.addActive id task]
  | count {id : GroupId} : db.groups.find id = some group → Commits db K [.addCount id time]

end Tasks

namespace Db.Sound
open Tasks

theorem active_none {db : Db} {task : ArchivedTask} (h : db.Sound)
    (hr : db.archivedTasks.find t = some task) :
    db.activeTasks.find t = none := by
  cases hf : db.activeTasks.find t with
  | none => rfl
  | some task =>
    rw [h.apart t task hf] at hr
    cases hr

theorem of_ident {db db' : Db} (h : db.Sound) (hi : ∀ t, db'.ident t = db.ident t)
    (ha : ∀ t task, db'.activeTasks.find t = some task → db'.archivedTasks.find t = none)
    (hd : ∀ t row, db'.archivedTasks.find t = some row →
      (row.state = .finished ∨ row.state = .cancelled) ∧ ∃ res, row.result = some res)
    (hu : ∀ id user, db.users.find id = some user → ∃ user', db'.users.find id = some user')
    (hg : ∀ id group, db.groups.find id = some group → ∃ group', db'.groups.find id = some group' ∧
      group.taskCount ≤ group'.taskCount) : db'.Sound := by
  constructor
  · exact ha
  · intro t t' o o' ho ho'
    exact h.uuids t t' o o' ((hi t).symm.trans ho) ((hi t').symm.trans ho')
  · intro t t' o o' ho ho'
    exact h.numbers t t' o o' ((hi t).symm.trans ho) ((hi t').symm.trans ho')
  · intro t o ho
    obtain ⟨group, hf, hone, hle⟩ := h.counted t o ((hi t).symm.trans ho)
    obtain ⟨group', hf', hle'⟩ := hg _ _ hf
    exact ⟨group', hf', hone, hle.trans hle'⟩
  · intro t o ho
    obtain ⟨user, hf⟩ := h.created t o ((hi t).symm.trans ho)
    exact hu _ _ hf
  · exact hd

end Db.Sound

namespace Tasks
open Txns (applyAll)

structure Kept (db db' : Db) : Prop where
  ident : ∀ t o, db.ident t = some o → db'.ident t = some o
  archived : ∀ t row, db.archivedTasks.find t = some row → ∃ row', db'.archivedTasks.find t = some row'
  users : ∀ id user, db.users.find id = some user → ∃ user', db'.users.find id = some user'
  groups : ∀ id group, db.groups.find id = some group → ∃ group', db'.groups.find id = some group' ∧
    group.taskCount ≤ group'.taskCount

namespace Kept

theorem refl (db : Db) : Kept db db := by
  constructor
  · exact fun _ _ h => h
  · exact fun _ row h => ⟨row, h⟩
  · exact fun _ user h => ⟨user, h⟩
  · exact fun _ group h => ⟨group, h, le_rfl⟩

theorem trans {db₁ db₂ db₃ : Db} (h : Kept db₁ db₂) (h' : Kept db₂ db₃) : Kept db₁ db₃ := by
  constructor
  · exact fun t o ho => h'.ident t o (h.ident t o ho)
  · intro t row hr
    obtain ⟨row', hr'⟩ := h.archived t row hr
    exact h'.archived t row' hr'
  · intro id user hu
    obtain ⟨user', hu'⟩ := h.users id user hu
    exact h'.users id user' hu'
  · intro id group hg
    obtain ⟨group', hg', hle⟩ := h.groups id group hg
    obtain ⟨group'', hg'', hle'⟩ := h'.groups id group' hg'
    exact ⟨group'', hg'', hle.trans hle'⟩

end Kept

structure Same (db db' : Db) : Prop extends Kept db db' where
  back : ∀ t, db'.ident t = db.ident t
  counts : ∀ g group', db'.groups.find g = some group' →
    ∃ group, db.groups.find g = some group ∧ group.taskCount ≤ group'.taskCount

namespace Same

theorem refl (db : Db) : Same db db :=
  ⟨Kept.refl db, fun _ => rfl, fun _ group h => ⟨group, h, le_rfl⟩⟩

theorem trans {db₁ db₂ db₃ : Db} (h : Same db₁ db₂) (h' : Same db₂ db₃) : Same db₁ db₃ := by
  refine ⟨h.toKept.trans h'.toKept, fun t => (h'.back t).trans (h.back t), ?_⟩
  intro g group hg
  obtain ⟨group', hg', hle⟩ := h'.counts g group hg
  obtain ⟨group'', hg'', hle'⟩ := h.counts g group' hg'
  exact ⟨group'', hg'', hle'.trans hle⟩

end Same

theorem ident_plain {w : Write} (hw : w.plain) (db : Db) (t : TaskId) :
    (w.apply db).ident t = db.ident t := by
  have ha := w.plain_active hw db t
  have har := w.plain_archived hw db t
  cases hf : db.activeTasks.find t with
  | some task =>
    rw [hf, Option.map_some] at ha
    rw [Db.ident_active ha, Db.ident_active hf, w.onActive_ident]
  | none =>
    rw [hf, Option.map_none] at ha
    rw [Db.ident_archived ha, Db.ident_archived hf, har]
    cases db.archivedTasks.find t with
    | none => rfl
    | some row => exact congrArg some (w.onArchived_done t row).1

theorem same_plain {w : Write} (hw : w.plain) (db : Db) : Same db (w.apply db) := by
  obtain ⟨hu, hg⟩ := w.plain_accounts hw db
  have hi := ident_plain hw db
  constructor
  · constructor
    · exact fun t o ho => (hi t).trans ho
    · intro t row hr
      rw [w.plain_archived hw, hr]
      exact ⟨_, rfl⟩
    · rw [hu]
      exact fun _ user h => ⟨user, h⟩
    · rw [hg]
      exact fun _ group h => ⟨group, h, le_rfl⟩
  · exact hi
  · rw [hg]
    exact fun _ group h => ⟨group, h, le_rfl⟩

theorem Sound.plain {w : Write} {db : Db} (h : db.Sound) (hw : w.plain) : (w.apply db).Sound := by
  have hs := same_plain hw db
  apply h.of_ident hs.back _ _ hs.users hs.groups
  · intro t task ht
    rw [w.plain_active hw] at ht
    obtain ⟨task', ht', -⟩ := Option.map_eq_some_iff.1 ht
    rw [w.plain_archived hw, h.apart t task' ht', Option.map_none]
  · intro t row hr
    rw [w.plain_archived hw] at hr
    obtain ⟨row', hr', rfl⟩ := Option.map_eq_some_iff.1 hr
    obtain ⟨-, hst, hres⟩ := w.onArchived_done t row'
    rw [hst, hres]
    exact h.done t row' hr'

theorem plain_all {ws : List Write} {db : Db} (h : db.Sound) (hw : ∀ w ∈ ws, w.plain) :
    (applyAll ws db).Sound ∧ Same db (applyAll ws db) := by
  induction ws generalizing db with
  | nil => exact ⟨h, Same.refl db⟩
  | cons w ws ih =>
    have hw₁ := hw w (.head _)
    obtain ⟨hs, hsame⟩ := ih (Sound.plain h hw₁) fun w' hm => hw w' (.tail _ hm)
    exact ⟨hs, (same_plain hw₁ db).trans hsame⟩

theorem moved_all {moved : TaskId → Option ArchivedTask} {db db' : Db} (h : db.Sound)
    (hm : Moved moved db db') (hd : ∀ t row, moved t = some row →
      db.archivedTasks.find t = none ∧ db.ident t = some row.ident ∧ Done row) :
    db'.Sound ∧ Same db db' := by
  obtain ⟨hu, hg⟩ := hm.accounts
  have hi : ∀ t, db'.ident t = db.ident t := by
    intro t
    have ha := hm.active t
    have har := hm.archived t
    cases hmt : moved t with
    | none =>
      rw [hmt] at ha har
      rw [Db.ident, Db.row, ha, har]
      rfl
    | some row =>
      rw [hmt] at ha har
      rw [(hd t row hmt).2.1, Db.ident_archived ha, har]
      rfl
  have hsame : Same db db' := by
    constructor
    · constructor
      · exact fun t o ho => (hi t).trans ho
      · intro t row hr
        rw [hm.archived]
        cases moved t with
        | none => exact ⟨row, hr⟩
        | some row' => exact ⟨row', rfl⟩
      · rw [hu]
        exact fun _ user h => ⟨user, h⟩
      · rw [hg]
        exact fun _ group h => ⟨group, h, le_rfl⟩
    · exact hi
    · rw [hg]
      exact fun _ group h => ⟨group, h, le_rfl⟩
  refine ⟨h.of_ident hi ?_ ?_ hsame.users hsame.groups, hsame⟩
  · intro t task ht
    rw [hm.active] at ht
    rw [hm.archived]
    cases hmt : moved t with
    | none =>
      rw [hmt] at ht
      exact h.apart t task ht
    | some row =>
      rw [hmt] at ht
      cases ht
  · intro t row hr
    rw [hm.archived] at hr
    cases hmt : moved t with
    | none =>
      rw [hmt] at hr
      exact h.done t row hr
    | some row' =>
      rw [hmt] at hr
      obtain rfl := Option.some.inj hr
      exact (hd t _ hmt).2.2

theorem count_all {db : Db} (h : db.Sound) (id : GroupId) (time : Instant) :
    ((Write.addCount id time).apply db).Sound ∧
      Same db ((Write.addCount id time).apply db) := by
  have hf : ∀ g, ((Write.addCount id time).apply db).groups.find g =
      (db.groups.find g).map fun group => if g = id then
        { group with taskCount := group.taskCount + 1, updatedAt := time } else group :=
    fun g => find_update_map _ _ _ _
  have hle : ∀ (g : GroupId) (group : Group), group.taskCount ≤ (if g = id then
      { group with taskCount := group.taskCount + 1, updatedAt := time } else group).taskCount := by
    intro g group
    split
    · exact (lt_add_one group.taskCount).le
    · exact le_rfl
  have hkept : Kept db ((Write.addCount id time).apply db) := by
    constructor
    · exact fun _ _ ho => ho
    · exact fun _ row hr => ⟨row, hr⟩
    · exact fun _ user hu => ⟨user, hu⟩
    · intro g group hg
      rw [hf, hg]
      exact ⟨_, rfl, hle g group⟩
  refine ⟨?_, hkept, fun _ => rfl, ?_⟩
  · exact h.of_ident (fun _ => rfl) h.apart h.done hkept.users hkept.groups
  · intro g group' hg
    rw [hf] at hg
    obtain ⟨group, hg', rfl⟩ := Option.map_eq_some_iff.1 hg
    exact ⟨group, hg', hle g group⟩

structure New (db : Db) (id : TaskId) (task : ActiveTask) : Prop where
  absent : db.ident id = none
  uuid : ∀ t o, db.ident t = some o → o.uuid ≠ task.uuid
  number : ∀ t o, db.ident t = some o → o.groupId = task.groupId → o.taskId ≠ task.taskId
  counted : ∃ group, db.groups.find task.groupId = some group ∧ 1 ≤ task.taskId ∧
    task.taskId ≤ group.taskCount
  created : ∃ user, db.users.find task.creatorId = some user

theorem ident_insert (db : Db) (id t : TaskId) (task : ActiveTask) :
    ((Write.addActive id task).apply db).ident t =
      if t = id then some task.ident else db.ident t := by
  have ha : ((Write.addActive id task).apply db).activeTasks.find t =
      if t = id then some task else db.activeTasks.find t := Table.find_set _ _ _ _
  split
  next h =>
    rw [if_pos h] at ha
    exact Db.ident_active ha
  next h =>
    rw [if_neg h] at ha
    rw [Db.ident, Db.row, ha]
    rfl

theorem kept_insert {db : Db} {id : TaskId} (ha : db.activeTasks.find id = none)
    (har : db.archivedTasks.find id = none) : Kept db ((Write.addActive id task).apply db) := by
  constructor
  · intro t o ho
    rw [ident_insert, if_neg]
    · exact ho
    · rintro rfl
      rw [Db.ident_archived ha, har] at ho
      cases ho
  · exact fun _ row hr => ⟨row, hr⟩
  · exact fun _ user hu => ⟨user, hu⟩
  · exact fun _ group hg => ⟨group, hg, le_rfl⟩

theorem insert_all {db : Db} {id : TaskId} (h : db.Sound) (hn : New db id task) :
    ((Write.addActive id task).apply db).Sound ∧ Kept db ((Write.addActive id task).apply db) := by
  have hi := ident_insert db id
  have hcases : ∀ t o, ((Write.addActive id task).apply db).ident t = some o →
      t = id ∧ o = task.ident ∨ t ≠ id ∧ db.ident t = some o := by
    intro t o ho
    rw [hi] at ho
    split at ho
    next ht => exact .inl ⟨ht, (Option.some.inj ho).symm⟩
    next ht => exact .inr ⟨ht, ho⟩
  have hfree : db.activeTasks.find id = none ∧ db.archivedTasks.find id = none := by
    have h' := hn.absent
    cases hf : db.activeTasks.find id with
    | none =>
      rw [Db.ident_archived hf] at h'
      exact ⟨rfl, Option.map_eq_none_iff.1 h'⟩
    | some task =>
      rw [Db.ident_active hf] at h'
      cases h'
  refine ⟨?_, kept_insert hfree.1 hfree.2⟩
  · constructor
    · intro t row ht
      change (db.activeTasks.set id task).find t = some row at ht
      rw [Table.find_set] at ht
      split at ht
      next he =>
        rw [he]
        exact hfree.2
      next => exact h.apart t row ht
    · intro t t' o o' ho ho' hu
      rcases hcases t o ho with ⟨rfl, rfl⟩ | ⟨-, ho⟩
      · rcases hcases t' o' ho' with ⟨rfl, -⟩ | ⟨-, ho'⟩
        · rfl
        · exact (hn.uuid t' o' ho' hu.symm).elim
      · rcases hcases t' o' ho' with ⟨-, rfl⟩ | ⟨-, ho'⟩
        · exact (hn.uuid t o ho hu).elim
        · exact h.uuids t t' o o' ho ho' hu
    · intro t t' o o' ho ho' hg hnum
      rcases hcases t o ho with ⟨rfl, rfl⟩ | ⟨-, ho⟩
      · rcases hcases t' o' ho' with ⟨rfl, -⟩ | ⟨-, ho'⟩
        · rfl
        · exact (hn.number t' o' ho' hg.symm hnum.symm).elim
      · rcases hcases t' o' ho' with ⟨-, rfl⟩ | ⟨-, ho'⟩
        · exact (hn.number t o ho hg hnum).elim
        · exact h.numbers t t' o o' ho ho' hg hnum
    · intro t o ho
      rcases hcases t o ho with ⟨-, rfl⟩ | ⟨-, ho⟩
      · exact hn.counted
      · exact h.counted t o ho
    · intro t o ho
      rcases hcases t o ho with ⟨-, rfl⟩ | ⟨-, ho⟩
      · exact hn.created
      · exact h.created t o ho
    · exact h.done

def creates : Write → Prop
  | .addActive _ _ | .addCount _ _ => True
  | _ => False

theorem not_creates_of_plain {w : Write} (h : w.plain) : ¬creates w := by
  cases w with
  | addActive | addCount => exact h.elim
  | _ => exact fun h => h

theorem conflict_free {db : Db} {id : TaskId} (h : insertConflict db id task = false) :
    db.activeTasks.find id = none ∧ ∃ user, db.users.find task.creatorId = some user := by
  simp only [insertConflict, Bool.or_eq_false_iff, Option.isSome_eq_false_iff,
    Option.isNone_iff_eq_none, Option.isNone_eq_false_iff, Option.isSome_iff_exists] at h
  exact ⟨h.1.1.1, h.1.2⟩

/-- A commit that neither counts nor inserts leaves the tasks as they are. -/
theorem Commits.same {db : Db} (h : db.Sound) (hc : Commits db K ws)
    (hno : ∀ w ∈ ws, ¬creates w)
    (hread : ∀ t task, Read K t task → db.ident t = some task.ident) :
    (applyAll ws db).Sound ∧ Same db (applyAll ws db) := by
  cases hc with
  | plain hw => exact plain_all h hw
  | @archive tasks hcur =>
    apply moved_all h (moved_archive tasks db)
    intro t row hr
    obtain ⟨hn, task, time, ht, rfl⟩ := hcur t row hr
    exact ⟨hn, Db.ident_active ht, done_cancelled time task⟩
  | @move row _ id hn hcopy hw =>
    obtain ⟨hs, hsame⟩ := moved_all h (moved_one id row db) (by
      intro t row' hr
      split at hr
      next ht =>
        obtain rfl := Option.some.inj hr
        obtain ⟨task, hr, he⟩ := hcopy.ident
        rw [ht, he]
        exact ⟨hn, hread _ _ hr, hcopy.done⟩
      next => cases hr)
    obtain ⟨hs', hsame'⟩ := plain_all hs hw
    exact ⟨hs', hsame.trans hsame'⟩
  | insert => exact (hno _ (.head _) trivial).elim
  | count => exact (hno _ (.head _) trivial).elim

theorem Commits.kept {db : Db} (h : db.Sound) (hc : Commits db K ws)
    (hread : ∀ t task, Read K t task → db.ident t = some task.ident) :
    Kept db (applyAll ws db) := by
  by_cases hno : ∀ w ∈ ws, ¬creates w
  · exact (hc.same h hno hread).2.toKept
  · cases hc with
    | insert hconf hn =>
      exact kept_insert (conflict_free hconf).1 hn
    | count => exact (count_all h _ _).2.toKept
    | plain hw => exact (hno fun w hm => not_creates_of_plain (hw w hm)).elim
    | archive =>
      apply (hno _).elim
      intro w hm
      obtain rfl := List.mem_singleton.1 hm
      exact fun h => h
    | move hn hcopy hw =>
      apply (hno _).elim
      intro w hm
      rcases List.mem_cons.1 hm with rfl | hm
      · exact fun h => h
      · rcases List.mem_cons.1 hm with rfl | hm
        · exact fun h => h
        · exact not_creates_of_plain (hw w hm)

end Tasks
end Mitosis
