import Mitosis.ExitStatus
import Mitosis.Proof.Alone

namespace Mitosis
set_option autoImplicit true

/-- How an exit status compares with the operand of an operator. -/
abbrev Comparison := OperatorWithNumber → Int → Bool

def asNumber : Comparison := fun op n => op.holds n

def asText : Comparison := fun op n => op.holdsText (toString n)

namespace TasksCancelByFilterReq
variable (req : TasksCancelByFilterReq)

def meets (groupName : String) (compare : Comparison) (creator : User) (group : Group)
    (task : ActiveTask) : Bool :=
  req.creatorUsernames.all (fun us => decide (creator.username ∈ us)) &&
  decide (group.groupName = groupName) &&
  req.tags.all (containsAll task.tags) &&
  req.labels.all (containsAll task.labels) &&
  req.exitStatus.all (fun s => (parseOperatorsWithNumber s).toOption.any fun op =>
    task.result.any fun r => compare op r.exitStatus) &&
  req.priority.all fun s => (parseOperatorsWithNumber s).toOption.any fun op =>
    op.holds task.priority

def names (state : TaskState) : Bool := req.states.all fun states => decide (state ∈ states)

end TasksCancelByFilterReq

namespace Db
variable (db : Db) (userId : UserId) (req : TasksCancelByFilterReq)

def groupAsked : Option String :=
  req.groupName.or ((db.users.find userId).map User.username)

/-- The task meets the criteria of the request other than the state, and can be cancelled. -/
def meets (compare : Comparison) (task : ActiveTask) : Bool :=
  (task.state ∈ [.ready, .pending]) && (db.groupAsked userId req).any fun name =>
    (db.users.find task.creatorId).any fun creator =>
      (db.groups.find task.groupId).any fun group => req.meets name compare creator group task

def asks (task : ActiveTask) : Bool :=
  db.meets userId req asNumber task && req.names task.state

structure CancelsAsked (now : Instant) (db' : Db) (resp : TasksCancelByFilterResp) : Prop where
  active : ∀ t, db'.activeTasks.find t =
    (db.activeTasks.find t).filter fun task => !db.asks userId req task
  archived : ∀ t, db'.archivedTasks.find t =
    (((db.activeTasks.find t).filter (db.asks userId req)).map (cancelledTask now)).or
      (db.archivedTasks.find t)
  others : db' = { db with activeTasks := db'.activeTasks, archivedTasks := db'.archivedTasks }
  count : resp.cancelledCount =
    (db.activeTasks.rows.filter fun e => db.asks userId req e.2).length

end Db

def TasksCancelByFilterReq.namesWaiting (req : TasksCancelByFilterReq) : Bool :=
  req.names .ready || req.names .pending

namespace Service
variable {faults rest : List (Option DbErr)} {s s' : Infra}

def cancels (db : Db) (userId : UserId) (req : TasksCancelByFilterReq) (task : ActiveTask) : Bool :=
  db.meets userId req asText task && task.state ∈ cancellableStates req.states

theorem runs_nonempty {xs : Option (List α)}
    (h : runs (nonempty msg xs) faults s = some (.ok (), (rest, s'))) : s = s' := by
  rw [nonempty] at h
  split at h
  next => cases h
  next =>
    obtain ⟨⟩ := h
    rfl

theorem runs_queriedGroup (h : runs (queriedGroup userId name) faults s = some (.ok g, (rest, s'))) :
    s = s' ∧ name.or ((s.db.users.find userId).map User.username) = some g := by
  cases name with
  | some name =>
    obtain ⟨⟩ := h
    exact ⟨rfl, rfl⟩
  | none =>
    obtain ⟨user, faults₁, s₁, hu, h⟩ := runs_bind_ok h
    obtain ⟨rfl, rfl⟩ := runs_select_ok hu
    simp only [Select.eval] at h
    cases hf : s.db.users.find userId with
    | none =>
      rw [hf] at h
      cases h
    | some user =>
      rw [hf] at h
      obtain ⟨⟩ := h
      exact ⟨rfl, rfl⟩

theorem runs_checkRole
    (h : runs (checkRole userId name role) faults s = some (.ok (), (rest, s'))) : s = s' := by
  obtain ⟨found, faults₁, s₁, hr, h⟩ := runs_bind_ok h
  obtain ⟨rfl, -⟩ := runs_select_ok hr
  cases found with
  | none => cases h
  | some r =>
    dsimp only at h
    split at h
    next =>
      obtain ⟨⟩ := h
      rfl
    next => cases h

theorem runs_checkTaskListQuery
    (h : runs (checkTaskListQuery userId query role) faults s = some (.ok (q, g), (rest, s'))) :
    s = s' ∧ q = { query with groupName := some g } ∧
      query.groupName.or ((s.db.users.find userId).map User.username) = some g := by
  obtain ⟨_, _, s₁, h₁, h⟩ := runs_bind_ok h
  obtain ⟨_, _, s₂, h₂, h⟩ := runs_bind_ok h
  obtain ⟨_, _, s₃, h₃, h⟩ := runs_bind_ok h
  obtain ⟨_, _, s₄, h₄, h⟩ := runs_bind_ok h
  obtain ⟨g', _, s₅, h₅, h⟩ := runs_bind_ok h
  obtain ⟨_, _, s₆, h₆, h⟩ := runs_bind_ok h
  obtain rfl := runs_nonempty h₁
  obtain rfl := runs_nonempty h₂
  obtain rfl := runs_nonempty h₃
  obtain rfl := runs_nonempty h₄
  obtain ⟨rfl, hg⟩ := runs_queriedGroup h₅
  obtain rfl := runs_checkRole h₆
  obtain ⟨⟩ := h
  exact ⟨rfl, rfl, hg⟩

theorem runs_removeTasks (h : runs (removeTasks ids) faults s = some (r, (rest, s'))) :
    s'.db = s.db := by
  induction ids generalizing faults s with
  | nil =>
    obtain ⟨⟩ := h
    rfl
  | cons id ids ih =>
    have hsend : ∀ {r : Except Error Unit} {faults₁ s₁},
        runs (removeTask id) faults s = some (r, (faults₁, s₁)) → s₁.db = s.db := by
      intro r faults₁ s₁ h
      obtain ⟨fault, -, ⟨-, -, rfl⟩ | ⟨-, -, rfl⟩⟩ := runs_sendTask h <;> rfl
    have hignore : ∀ {r : Except Error Unit} {faults₁ s₁},
        runs (ignore (removeTask id)) faults s = some (r, (faults₁, s₁)) → s₁.db = s.db := by
      intro r faults₁ s₁ h
      rcases runs_recover h with ⟨a, h, -⟩ | ⟨e, faults₂, s₂, h, hr⟩
      · exact hsend h
      · obtain ⟨⟩ := hr
        exact hsend h
    rcases runs_bind h with ⟨_, faults₁, s₁, h₁, h⟩ | ⟨e, h₁, -⟩
    · exact (ih h).trans (hignore h₁)
    · exact hignore h₁

end Service

theorem all_of_mapM {x : Option String} {y : Option OperatorWithNumber}
    (h : x.mapM parseOperatorsWithNumber = .ok y) (p : OperatorWithNumber → Bool) :
    y.all p = x.all fun s => (parseOperatorsWithNumber s).toOption.any p := by
  cases x with
  | none =>
    obtain ⟨⟩ := h
    rfl
  | some s =>
    change some <$> parseOperatorsWithNumber s = _ at h
    simp only [Option.all_some]
    cases hs : parseOperatorsWithNumber s with
    | error =>
      rw [hs] at h
      cases h
    | ok op =>
      rw [hs] at h
      obtain ⟨⟩ := h
      rfl

theorem applyTaskFilters_ok (h : applyTaskFilters query = .ok filter) :
    ∃ exitStatus priority, query.exitStatus.mapM parseOperatorsWithNumber = .ok exitStatus ∧
      query.priority.mapM parseOperatorsWithNumber = .ok priority ∧
      filter = ⟨query.creatorUsernames, query.groupName, query.tags, query.labels, query.states,
        exitStatus, priority, query.reporterUuid.isSome⟩ := by
  rw [applyTaskFilters] at h
  cases he : query.exitStatus.mapM parseOperatorsWithNumber with
  | error =>
    rw [he] at h
    cases h
  | ok exitStatus =>
    cases hp : query.priority.mapM parseOperatorsWithNumber with
    | error =>
      rw [he, hp] at h
      cases h
    | ok priority =>
      rw [he, hp] at h
      obtain ⟨⟩ := h
      exact ⟨exitStatus, priority, rfl, rfl, rfl⟩

def TasksCancelByFilterReq.query (req : TasksCancelByFilterReq) (groupName : Option String) :
    TasksQueryReq where
  creatorUsernames := req.creatorUsernames
  groupName := groupName
  tags := req.tags
  labels := req.labels
  states := some (Service.cancellableStates req.states)
  exitStatus := req.exitStatus
  priority := req.priority
  reporterUuid := none
  limit := none
  offset := none
  count := false

theorem selects_eq_meets {req : TasksCancelByFilterReq} {filter : TaskFilter}
    (h : applyTaskFilters (req.query (some name)) = .ok filter) (creator : User) (group : Group)
    (task : ActiveTask) : filter.selects creator group task =
      (req.meets name asText creator group task &&
        task.state ∈ Service.cancellableStates req.states) := by
  obtain ⟨exitStatus, priority, he, hp, rfl⟩ := applyTaskFilters_ok h
  simp only [TaskFilter.selects, TasksCancelByFilterReq.meets, TasksCancelByFilterReq.query,
    Option.isSome_none, Bool.not_false, Bool.true_and, Option.all_some, asText]
  rw [all_of_mapM he, all_of_mapM hp]
  simp only [TasksCancelByFilterReq.query]
  ac_rfl

theorem cancellable_waiting {states : Option (List TaskState)}
    (h : st ∈ Service.cancellableStates states) : st ∈ [TaskState.ready, .pending] := by
  rw [Service.cancellableStates] at h
  split at h
  · exact h
  · exact (List.mem_filter.1 h).1

theorem filteredTasks_cancels {db : Db} {req : TasksCancelByFilterReq} {filter : TaskFilter}
    (h : applyTaskFilters (req.query (some name)) = .ok filter)
    (hg : db.groupAsked userId req = some name) : db.filteredTasks filter =
      db.activeTasks.select fun _ task => Service.cancels db userId req task := by
  unfold Db.filteredTasks
  congr 1
  funext _ task
  rw [Service.cancels, Db.meets, hg, Option.any_some]
  simp only [selects_eq_meets h]
  by_cases hs : task.state ∈ Service.cancellableStates req.states
  · simp only [hs, cancellable_waiting hs, decide_true, Bool.and_true, Bool.true_and]
  · simp only [hs, decide_false, Bool.and_false, Option.any_false]

theorem rows_select (t : Table κ ρ) (p : κ → ρ → Bool) :
    (t.select p).rows = t.rows.filter fun e => p e.1 e.2 := by
  simp only [Table.select, Table.deleteWhere, Table.alter]
  rw [← List.filterMap_eq_filter]
  congr 1
  funext e
  by_cases h : p e.1 e.2 = true <;> simp [Option.guard, h]

/-- What a successful call does to the database. -/
structure Cancelled (db : Db) (userId : UserId) (req : TasksCancelByFilterReq) (now : Instant)
    (db' : Db) (resp : TasksCancelByFilterResp) : Prop where
  active : ∀ t, db'.activeTasks.find t =
    (db.activeTasks.find t).filter fun task => !Service.cancels db userId req task
  archived : ∀ t, db'.archivedTasks.find t =
    (((db.activeTasks.find t).filter (Service.cancels db userId req)).map
      (Db.cancelledTask now)).or (db.archivedTasks.find t)
  others : db' = { db with activeTasks := db'.activeTasks, archivedTasks := db'.archivedTasks }
  count : resp.cancelledCount =
    (db.activeTasks.rows.filter fun e => Service.cancels db userId req e.2).length

theorem cancelTasksByFilter_cancelled {faults rest : List (Option DbErr)} {s s' : Infra}
    (h : Service.runs (Service.cancelTasksByFilter userId req) faults s =
      some (.ok resp, (rest, s'))) : Cancelled s.db userId req s.clock s'.db resp := by
  obtain ⟨⟨q, g⟩, _, s₁, hc, h⟩ := Service.runs_bind_ok h
  obtain ⟨rfl, hq, hg⟩ := Service.runs_checkTaskListQuery hc
  obtain ⟨filter, _, s₂, hf, h⟩ := Service.runs_bind_ok h
  obtain ⟨rfl, happly⟩ := Service.runs_ofExcept hf
  obtain ⟨ids, _, s₃, hw, h⟩ := Service.runs_bind_ok h
  obtain ⟨db, hrun, rfl⟩ := Service.runs_write_ok hw
  obtain ⟨_, _, s₄, hr, h⟩ := Service.runs_bind_ok h
  have hdb := Service.runs_removeTasks hr
  obtain ⟨⟩ := h
  have hfilter : applyTaskFilters (req.query (some g)) = .ok filter := by
    rw [← happly, hq]
    rfl
  obtain ⟨rfl, ha⟩ := Db.cancelTasksByFilter_ok hrun
  obtain ⟨-, rfl⟩ := Db.archive_ok ha
  rw [filteredTasks_cancels hfilter hg] at hdb ⊢
  rw [hdb]
  constructor
  · intro t
    simp only [Table.find_deleteWhere, Table.find_mapRows, Table.find_select, Option.isSome_map]
    cases s.db.activeTasks.find t with
    | none => rfl
    | some task =>
      simp only [Option.filter_some]
      cases Service.cancels s.db userId req task <;> rfl
  · intro t
    rw [Table.find_merge, Table.find_mapRows, Table.find_select]
  · rfl
  · rw [Table.keys, List.length_map, rows_select]

theorem asked_iff_agrees (h : Cancelled db userId req now db' resp) :
    db.CancelsAsked userId req now db' resp ↔ ∀ t task, db.activeTasks.find t = some task →
      db.asks userId req task = Service.cancels db userId req task := by
  constructor
  · intro ha t task hf
    have he := (ha.active t).symm.trans (h.active t)
    rw [hf, Option.filter_some, Option.filter_some] at he
    revert he
    cases db.asks userId req task <;> cases Service.cancels db userId req task <;> simp
  · intro ha
    have hrow : ∀ t, (db.activeTasks.find t).filter (db.asks userId req) =
        (db.activeTasks.find t).filter (Service.cancels db userId req) := by
      intro t
      cases hf : db.activeTasks.find t with
      | none => rfl
      | some task => rw [Option.filter_some, Option.filter_some, ha t task hf]
    constructor
    · intro t
      rw [h.active t]
      cases hf : db.activeTasks.find t with
      | none => rfl
      | some task => rw [Option.filter_some, Option.filter_some, ha t task hf]
    · intro t
      rw [h.archived t, hrow t]
    · exact h.others
    · rw [h.count]
      congr 1
      apply List.filter_congr
      intro e he
      exact (ha e.1 e.2 (Table.mem_rows.1 he)).symm

/-- The request names a state in which a task can be cancelled or no other criterion of it is met,
and the exit statuses of the tasks that it asks for compare as texts as they do as numbers. -/
structure TasksCancelByFilterReq.Plain (req : TasksCancelByFilterReq) (db : Db) (userId : UserId) :
    Prop where
  states : req.namesWaiting = true ∨ ∀ t task, db.activeTasks.find t = some task →
    db.meets userId req asText task = false
  exitStatus : ∀ t task r s op, db.activeTasks.find t = some task → task.result = some r →
    req.exitStatus = some s → parseOperatorsWithNumber s = .ok op →
    db.meets userId { req with exitStatus := none } asText task = true →
    req.names task.state = true → op.Comparable r.exitStatus

theorem any_and (o : Option α) (p : α → Bool) (b : Bool) :
    (o.any fun x => p x && b) = (o.any p && b) := by
  cases o <;> rfl

namespace Db
variable {db : Db} {userId : UserId} {req : TasksCancelByFilterReq} {task : ActiveTask}

theorem meets_eq (compare compare' : Comparison) : db.meets userId req compare task =
    (db.meets userId { req with exitStatus := none } compare' task &&
      req.exitStatus.all fun s => (parseOperatorsWithNumber s).toOption.any fun op =>
        task.result.any fun r => compare op r.exitStatus) := by
  have hreq : ∀ name creator group, req.meets name compare creator group task =
      (({ req with exitStatus := none } : TasksCancelByFilterReq).meets name compare' creator group
        task && req.exitStatus.all fun s => (parseOperatorsWithNumber s).toOption.any fun op =>
          task.result.any fun r => compare op r.exitStatus) := by
    intro name creator group
    simp only [TasksCancelByFilterReq.meets, Option.all_none, Bool.and_true]
    ac_rfl
  simp only [meets, groupAsked, hreq, any_and]
  rw [Bool.and_assoc]

theorem meets_waiting {compare : Comparison} (h : db.meets userId req compare task = true) :
    task.state = .ready ∨ task.state = .pending := by
  have hw := (Bool.and_eq_true_iff.1 h).1
  simpa using hw

theorem exit_agrees_iff : (req.exitStatus.all fun s => (parseOperatorsWithNumber s).toOption.any
      fun op => task.result.any fun r => asNumber op r.exitStatus) =
    (req.exitStatus.all fun s => (parseOperatorsWithNumber s).toOption.any
      fun op => task.result.any fun r => asText op r.exitStatus) ↔
    ∀ r s op, task.result = some r → req.exitStatus = some s →
      parseOperatorsWithNumber s = .ok op → op.Comparable r.exitStatus := by
  cases hs : req.exitStatus with
  | none =>
    apply iff_of_true rfl
    intro r s op hr h
    cases h
  | some s =>
    simp only [Option.all_some]
    cases hp : parseOperatorsWithNumber s with
    | error =>
      apply iff_of_true rfl
      intro r s' op hr h hp'
      obtain rfl := Option.some.inj h
      rw [hp] at hp'
      cases hp'
    | ok op =>
      simp only [Except.toOption, Option.any_some]
      cases hr : task.result with
      | none =>
        apply iff_of_true rfl
        intro r s' op' h
        cases h
      | some r =>
        rw [Option.any_some, Option.any_some, asNumber, asText, eq_comm, op.holdsText_eq_iff]
        constructor
        · intro hc r' s' op' hr' h hp'
          obtain rfl := Option.some.inj hr'
          obtain rfl := Option.some.inj h
          obtain rfl := Except.ok.inj (hp.symm.trans hp')
          exact hc
        · exact fun h => h r s op rfl rfl hp

end Db

theorem mem_cancellable {req : TasksCancelByFilterReq} {st : TaskState}
    (hst : st = .ready ∨ st = .pending) (h : req.namesWaiting = true) :
    decide (st ∈ Service.cancellableStates req.states) = req.names st := by
  unfold TasksCancelByFilterReq.namesWaiting TasksCancelByFilterReq.names at h
  unfold Service.cancellableStates TasksCancelByFilterReq.names
  cases hs : req.states with
  | none => rcases hst with rfl | rfl <;> rfl
  | some states =>
    rw [hs] at h
    simp only [Option.all_some, Option.any_some] at h ⊢
    by_cases hr : TaskState.ready ∈ states <;> by_cases hp : TaskState.pending ∈ states <;>
      rcases hst with rfl | rfl <;> simp_all

theorem names_not_waiting {req : TasksCancelByFilterReq} {st : TaskState}
    (hst : st = .ready ∨ st = .pending) (h : req.namesWaiting = false) :
    req.names st = false ∧ st ∈ Service.cancellableStates req.states := by
  unfold TasksCancelByFilterReq.namesWaiting TasksCancelByFilterReq.names at h
  unfold Service.cancellableStates TasksCancelByFilterReq.names
  cases hs : req.states with
  | none =>
    rw [hs] at h
    cases h
  | some states =>
    rw [hs] at h
    simp only [Option.all_some, Bool.or_eq_false_iff, decide_eq_false_iff_not] at h
    rcases hst with rfl | rfl <;> simp [h.1, h.2]

theorem agrees_iff_plain (db : Db) (userId : UserId) (req : TasksCancelByFilterReq) :
    (∀ t task, db.activeTasks.find t = some task →
      db.asks userId req task = Service.cancels db userId req task) ↔ req.Plain db userId := by
  cases hn : req.namesWaiting with
  | true =>
    have hrow : ∀ task, db.asks userId req task = Service.cancels db userId req task ↔
        (db.meets userId { req with exitStatus := none } asText task = true →
          req.names task.state = true → ∀ r s op, task.result = some r → req.exitStatus = some s →
            parseOperatorsWithNumber s = .ok op → op.Comparable r.exitStatus) := by
      intro task
      have hnum : db.meets userId req asNumber task = _ := Db.meets_eq asNumber asText
      have htext : db.meets userId req asText task = _ := Db.meets_eq asText asText
      rw [Db.asks, Service.cancels, ← Db.exit_agrees_iff, hnum, htext]
      cases hm : db.meets userId { req with exitStatus := none } asText task with
      | false => simp
      | true =>
        rw [mem_cancellable (Db.meets_waiting hm) hn]
        cases req.names task.state
        · simp
        · simp only [Bool.true_and, Bool.and_true, forall_const]
    constructor
    · intro h
      refine ⟨.inl hn, ?_⟩
      intro t task r s op hf hr hs hp hm hnames
      exact (hrow task).1 (h t task hf) hm hnames r s op hr hs hp
    · intro h t task hf
      rw [hrow]
      intro hm hnames r s op hr hs hp
      exact h.exitStatus t task r s op hf hr hs hp hm hnames
  | false =>
    have hrow : ∀ task, db.asks userId req task = Service.cancels db userId req task ↔
        db.meets userId req asText task = false := by
      intro task
      rw [Db.asks, Service.cancels]
      cases hm : db.meets userId req asText task with
      | false =>
        cases hm' : db.meets userId req asNumber task with
        | false => simp
        | true => simp [(names_not_waiting (Db.meets_waiting hm') hn).1]
      | true =>
        have hw := names_not_waiting (Db.meets_waiting hm) hn
        simp [hw.1, hw.2]
    constructor
    · intro h
      refine ⟨.inr fun t task hf => (hrow task).1 (h t task hf), ?_⟩
      intro t task r s op hf hr hs hp hm hnames
      rw [(names_not_waiting (Db.meets_waiting hm) hn).1] at hnames
      cases hnames
    · intro h t task hf
      rw [hrow]
      rcases h.states with hw | hw
      · rw [hn] at hw
        cases hw
      · exact hw t task hf

/-- A call cancels exactly what the request asks for if and only if the request is plain. -/
theorem cancels_asked {userId : UserId} {req : TasksCancelByFilterReq}
    {resp : TasksCancelByFilterResp} {faults rest : List (Option DbErr)} {s s' : Infra}
    (h : Service.runs (Service.cancelTasksByFilter userId req) faults s =
      some (.ok resp, (rest, s'))) :
    s.db.CancelsAsked userId req s.clock s'.db resp ↔ req.Plain s.db userId :=
  (asked_iff_agrees (cancelTasksByFilter_cancelled h)).trans (agrees_iff_plain s.db userId req)

namespace FilterCancel

def ready : ActiveTask := {
  creatorId := 1, groupId := 1, taskId := 1, uuid := 7, tags := [], labels := []
  createdAt := 0, updatedAt := 0, state := .ready, assignedWorker := none, timeout := 60
  priority := 0, spec := ⟨[], [], [], false, none⟩, result := none, upstreamTaskUuid := none
  downstreamTaskUuid := none }

def db : Db where
  users := Table.empty.set 1 ⟨"alice", .active⟩
  groups := Table.empty.set 1 ⟨"alice", 0, .active, 1, 0, 0⟩
  userGroup := Table.empty.set (1, 1) .admin
  workers := .empty
  groupWorker := .empty
  activeTasks := Table.empty.set 7 ready
  archivedTasks := .empty
  artifacts := .empty
  workerSeq := 2
  taskSeq := 8

def inState (state : TaskState) : TasksCancelByFilterReq :=
  ⟨none, some "alice", none, none, some [state], none, none⟩

abbrev run (state : TaskState) :
    Option (Except Error TasksCancelByFilterResp × (List (Option DbErr) × Infra)) :=
  Service.runs (Service.cancelTasksByFilter 1 (inState state)) [none, none, none] (.serving db)

theorem run_ready : ∃ s', run .ready = some (.ok ⟨1, "alice"⟩, ([], s')) := ⟨_, rfl⟩

theorem run_running : ∃ s', run .running = some (.ok ⟨1, "alice"⟩, ([], s')) := ⟨_, rfl⟩

theorem inState_plain : (inState .ready).Plain db 1 := by
  refine ⟨.inl rfl, ?_⟩
  intro t task r s op hf hr hs
  cases hs

end FilterCancel

theorem cancels_asked_ready :
    ∃ s', FilterCancel.run .ready = some (.ok ⟨1, "alice"⟩, ([], s')) ∧
      FilterCancel.db.CancelsAsked 1 (FilterCancel.inState .ready) 0 s'.db ⟨1, "alice"⟩ := by
  obtain ⟨s', h⟩ := FilterCancel.run_ready
  exact ⟨s', h, (cancels_asked h).2 FilterCancel.inState_plain⟩

/-- A request that names only Running cancels the ready task. -/
theorem running_cancels_ready :
    ∃ s', FilterCancel.run .running = some (.ok ⟨1, "alice"⟩, ([], s')) ∧
      FilterCancel.db.asks 1 (FilterCancel.inState .running) FilterCancel.ready = false ∧
      ¬FilterCancel.db.CancelsAsked 1 (FilterCancel.inState .running) 0 s'.db ⟨1, "alice"⟩ := by
  obtain ⟨s', h⟩ := FilterCancel.run_running
  refine ⟨s', h, by decide, ?_⟩
  intro hc
  have hn := hc.count
  revert hn
  decide

end Mitosis
