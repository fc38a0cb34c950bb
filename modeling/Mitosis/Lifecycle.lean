import Mitosis.Proof.Upstream

namespace Mitosis
set_option autoImplicit true

/-- Where a task stands: the state in its row, and the table of the row. -/
inductive Status where
  | active (st : TaskState)
  | archived (st : TaskState)
  deriving DecidableEq

def Db.status (db : Db) (t : TaskId) : Option Status :=
  ((db.activeTasks.find t).map fun task => .active task.state).or
    ((db.archivedTasks.find t).map fun task => .archived task.state)

def Db.assignee (db : Db) (t : TaskId) : Option WorkerId :=
  (db.activeTasks.find t).bind ActiveTask.assignedWorker

def Db.upstreamCommitted (db : Db) (t : TaskId) : Prop :=
  ∃ task u up, db.activeTasks.find t = some task ∧ task.upstreamTaskUuid = some up ∧
    db.reported u up

def Write.removing (db : Db) (w : WorkerId) : Write → Prop
  | .pushBackTask w' _ _ => w' = w
  | .shutdownWorkersByFilter groupId req => req.op = .force ∧
    ∃ worker, db.workers.find w = some worker ∧ db.shutdownSelects groupId req w worker = true
  | .shutdownWorkersByUuids userId uuids op => op = .force ∧
    ∃ worker, (w, worker) ∈ db.administeredWorkers userId uuids
  | _ => False

def Write.isCancel : Write → Bool
  | .cancelTask _ _ | .cancelTasksByFilter _ | .cancelTasksByUuids _ _ => true
  | _ => false

/-- The changes that the life of a task consists of. -/
inductive Lifecycle (db : Db) (t : TaskId) : Write → Status → Status → Prop
  | triggered : db.upstreamCommitted t →
    Lifecycle db t (.triggerTask t now) (.active .pending) (.active .ready)
  | fetched : Lifecycle db t (.assignTask w t now) (.active .ready) (.active .running)
  | reported : db.assignee t = some w → st = .finished ∨ st = .cancelled →
    Lifecycle db t (.reportState w t st now) (.active .running) (.active st)
  | revived : db.assignee t = some w → q.removing db w →
    st = .running ∨ st = .finished ∨ st = .cancelled →
    Lifecycle db t q (.active st) (.active .ready)
  | cancelled : q.isCancel = true → st = .ready ∨ st = .pending →
    Lifecycle db t q (.active st) (.archived .cancelled)
  | committed : db.assignee t = some w → st = .finished ∨ st = .cancelled →
    Lifecycle db t (.commitTask w t archived now) (.active st) (.archived st)

/-- Every task keeps its status in the step, or makes a change of its lifecycle. -/
def State.Respects (s : State) (a : Action) (s' : State) : Prop :=
  ∀ t st, s.infra.db.status t = some st → s'.infra.db.status t = some st ∨
    ∃ i q st', a = .step i none ∧ s.next i = some (.write q) ∧
      s'.infra.db.status t = some st' ∧ Lifecycle s.infra.db t q st st'

def Db.upToDate (db : Db) : Write → Bool
  | .reportState w t st _ => (db.activeTasks.find t).all fun task =>
    decide (task.state = st ∨ task.state = .running ∧ task.assignedWorker = some w)
  | .pushBackTask w t _ => (db.activeTasks.find t).all fun task =>
    decide (task.state = .ready ∨ task.assignedWorker = some w)
  | .shutdownWorkersByUuids userId uuids .force =>
    let workers := db.administeredWorkers userId uuids
    workers.all fun e => e.2.assignedTaskId.all fun t => (db.activeTasks.find t).all fun task =>
      decide (task.state = .ready) ||
        task.assignedWorker.any fun w => decide (w ∈ workers.map Prod.fst)
  | .commitTask w t archived _ => db.archiveConflict t archived || (db.workers.find w).isNone ||
    (db.activeTasks.find t).all fun task =>
      decide (task.state = archived.state ∧ task.assignedWorker = some w)
  | _ => true

def State.upToDate (s : State) : Action → Bool
  | .step i none =>
    match s.next i with
    | some (.write q) => s.infra.db.upToDate q
    | _ => true
  | _ => true

namespace Db
variable {db db' : Db} {t : TaskId}

theorem status_active (hf : db.activeTasks.find t = some task) :
    db.status t = some (.active task.state) := by
  simp only [status, hf, Option.map_some, Option.some_or]

theorem status_archived (hf : db.activeTasks.find t = none)
    (ha : db.archivedTasks.find t = some task) : db.status t = some (.archived task.state) := by
  simp only [status, hf, ha, Option.map_none, Option.map_some, Option.none_or]

theorem assignee_eq (hf : db.activeTasks.find t = some task) :
    db.assignee t = task.assignedWorker := by
  simp only [assignee, hf, Option.bind_some]

theorem status_write_archived {q : Write} {r : q.Ret} (hk : db.Keyed)
    (hq : q.run clock db = .ok (r, db')) (hf : db.activeTasks.find t = none)
    (ha : db.archivedTasks.find t = some task) : db'.status t = some (.archived task.state) := by
  have hlt := hk.tasks t (by rw [hk.origin_archived ha]; rfl)
  have hf' : db'.activeTasks.find t = none := by
    have hc := q.taskChange hq t
    rw [hf] at hc
    generalize db'.activeTasks.find t = row at hc
    cases hc with
    | same | committed => rfl
    | inserted ht => exact (Nat.ne_of_lt hlt ht).elim
  have hc := q.archivedChange hq t
  rw [ha] at hc
  generalize hrow : db'.archivedTasks.find t = row at hc
  cases hc with
  | same => exact status_archived hf' hrow
  | touched =>
    have hs := status_archived hf' hrow
    exact hs

theorem isTaken_iff {st : TaskState} :
    st.isTaken = true ↔ st = .running ∨ st = .finished ∨ st = .cancelled := by
  cases st <;> decide

end Db

theorem cancelsIn_isCancel {q : Write} (h : q.cancelsIn st = true) : q.isCancel = true := by
  cases q <;> first | rfl | cases h

section
variable {s s' : State} {i : Nat} {hd : Handler} {q : Write} {r : q.Ret}
  {k : (Cmd.write q).Resp → HandlerProg}

theorem cancelsIn_waiting (hg : Grounded log s) (hi : s.pool[i]? = some hd)
    (hp : hd.prog = .call (.write q) k) (h : q.cancelsIn st = true) :
    st = .ready ∨ st = .pending := by
  cases q with
  | cancelTask => exact .inl (of_decide_eq_true h)
  | cancelTasksByFilter filter =>
    obtain ⟨states, hst, hsub⟩ := hg.sourced hi hp
    simp only [Write.cancelsIn, hst, Option.all_some, decide_eq_true_eq] at h
    simpa using hsub h
  | cancelTasksByUuids => simpa [Write.cancelsIn] using h
  | _ => cases h

/-- The write of a step that finds the rows as the handler knows them makes only changes of
the lifecycle. -/
theorem lifecycle_write (hpath : Path State.step ok (State.initial accounts timeout clock) as s)
    (hi : s.pool[i]? = some hd) (hp : hd.prog = .call (.write q) k)
    (hq : q.run s.infra.clock s.infra.db = .ok (r, db')) (hu : s.infra.db.upToDate q = true)
    (hst : s.infra.db.status t = some st) : db'.status t = some st ∨
      ∃ st', db'.status t = some st' ∧ Lifecycle s.infra.db t q st st' := by
  have hg := grounded_of_path hpath
  cases hf : s.infra.db.activeTasks.find t with
  | none =>
    cases ha : s.infra.db.archivedTasks.find t with
    | none =>
      rw [Db.status, hf, ha] at hst
      cases hst
    | some task =>
      obtain rfl := Option.some.inj ((Db.status_archived hf ha).symm.trans hst)
      exact .inl (Db.status_write_archived hg.keyed hq hf ha)
  | some task =>
    obtain rfl := Option.some.inj ((Db.status_active hf).symm.trans hst)
    have hc := q.taskChange hq t
    rw [hf] at hc
    cases hf' : db'.activeTasks.find t with
    | none =>
      refine .inr ?_
      rcases Write.archives hq hf hf' with ⟨ha, hc⟩ | ⟨w, archived, now, rfl, ha⟩
      · refine ⟨_, Db.status_archived hf' ha, .cancelled (cancelsIn_isCancel hc) ?_⟩
        exact cancelsIn_waiting hg hi hp hc
      · obtain ⟨_, _, seen, _, -, -, -, hfin, rfl⟩ := hg.sourced hi hp
        obtain ⟨hcon, worker, hw, -⟩ := Db.commitTask_ok hq
        simp only [Db.upToDate, hcon, hw, hf, Option.isNone_some, Option.all_some, Bool.false_or,
          decide_eq_true_eq] at hu
        rw [hu.1]
        exact ⟨_, Db.status_archived hf' ha, .committed ((Db.assignee_eq hf).trans hu.2) hfin⟩
    | some task' =>
      rw [hf'] at hc
      have hst' := Db.status_active hf'
      have htaken {w} (ha : task.assignedWorker = some w) := Db.isTaken_iff.1
        (taken_of_path hpath t task hf (by rw [ha]; exact Option.some_ne_none _))
      cases hc with
      | same | linked | touched => exact .inl hst'
      | inserted ht =>
        have hlt := hg.keyed.tasks t (by rw [Db.Keyed.origin_active hf]; rfl)
        exact (Nat.ne_of_lt hlt ht).elim
      | assigned _ hr =>
        rw [hr]
        exact .inr ⟨_, hst', .fetched⟩
      | reported =>
        simp only [Db.upToDate, hf, Option.all_some, decide_eq_true_eq] at hu
        obtain ⟨_, _, _, -, hfin, -⟩ := hg.sourced hi hp
        rcases hu with hu | ⟨hr, ha⟩
        · rw [hu]
          exact .inl hst'
        · rw [hr]
          exact .inr ⟨_, hst', .reported ((Db.assignee_eq hf).trans ha) hfin⟩
      | pushedBack =>
        simp only [Db.upToDate, hf, Option.all_some, decide_eq_true_eq] at hu
        rcases hu with hu | ha
        · rw [hu]
          exact .inl hst'
        · exact .inr ⟨_, hst', .revived ((Db.assignee_eq hf).trans ha) rfl (htaken ha)⟩
      | shutByFilter hop ha hw hs =>
        exact .inr ⟨_, hst', .revived ((Db.assignee_eq hf).trans ha) ⟨hop, _, hw, hs⟩ (htaken ha)⟩
      | shutByUuids hm ht =>
        simp only [Db.upToDate, List.all_eq_true] at hu
        have hu := hu _ hm
        simp only [ht, hf, Option.all_some, Bool.or_eq_true, decide_eq_true_eq,
          Option.any_eq_true] at hu
        rcases hu with hu | ⟨w, ha, hw⟩
        · rw [hu]
          exact .inl hst'
        · obtain ⟨⟨_, worker⟩, hm, rfl⟩ := List.mem_map.1 hw
          exact .inr ⟨_, hst', .revived ((Db.assignee_eq hf).trans ha) ⟨rfl, worker, hm⟩ (htaken ha)⟩
      | triggered =>
        obtain ⟨hpend, u, up, hr, hup⟩ := trigger_pending hpath hi hp hf
        rw [hpend]
        exact .inr ⟨_, hst', .triggered ⟨task, u, up, hf, hup, hr⟩⟩
      | changed => exact .inl hst'

end

theorem respects_of_upToDate {s s' : State}
    (hpath : Path State.step ok (State.initial accounts timeout clock) as s)
    (hs : s.step a = some s') (hu : s.upToDate a = true) : s.Respects a s' := by
  intro t st hst
  cases State.step_db hs with
  | same hdb =>
    rw [hdb]
    exact .inl hst
  | accounts _ hdb =>
    rw [hdb]
    exact .inl hst
  | @write i q r ha hn he hq =>
    subst ha
    obtain ⟨hd, k, hi, hp, -⟩ := State.event_handler hs he
    simp only [State.upToDate, hn] at hu
    rcases lifecycle_write hpath hi hp hq hu hst with h | ⟨st', h, hl⟩
    · exact .inl h
    · exact .inr ⟨i, q, st', rfl, hn, h, hl⟩

namespace Db
variable {db db' : Db} {q : Write} {r : q.Ret}

/-- The write makes only changes of the lifecycle. -/
def respects (db : Db) (q : Write) (db' : Db) : Prop :=
  ∀ t st, db.status t = some st → db'.status t = some st ∨
    ∃ st', db'.status t = some st' ∧ Lifecycle db t q st st'

theorem respects_row (h : db.respects q db') (hf : db.activeTasks.find t = some task)
    (hf' : db'.activeTasks.find t = some task') : task.state = task'.state ∨
      Lifecycle db t q (.active task.state) (.active task'.state) := by
  rcases h t _ (status_active hf) with h | ⟨st', h, hl⟩
  · rw [status_active hf'] at h
    exact .inl (Status.active.inj (Option.some.inj h)).symm
  · rw [status_active hf'] at h
    obtain rfl := Option.some.inj h
    exact .inr hl

theorem upToDate_of_respects (clock : Instant)
    (h : ∀ r db', q.run clock db = .ok (r, db') → db.respects q db') :
    db.upToDate q = true := by
  cases q with
  | reportState w t st now =>
    cases hf : db.activeTasks.find t with
    | none => simp only [upToDate, hf, Option.all_none]
    | some task =>
      have hr := respects_row (h _ _ (updateTask_run hf _)) hf (update_row hf _)
      simp only [upToDate, hf, Option.all_some, decide_eq_true_eq]
      rcases hr with hr | hl
      · exact .inl hr
      · generalize hst : task.state = st₀ at hl
        cases hl with
        | reported ha => exact .inr ⟨rfl, (assignee_eq hf).symm.trans ha⟩
        | revived _ hr => exact hr.elim
  | pushBackTask w t now =>
    cases hf : db.activeTasks.find t with
    | none => simp only [upToDate, hf, Option.all_none]
    | some task =>
      have hr := respects_row (h _ _ (updateTask_run hf _)) hf (update_row hf _)
      simp only [upToDate, hf, Option.all_some, decide_eq_true_eq]
      rcases hr with hr | hl
      · exact .inl hr
      · cases hl with
        | revived ha hr =>
          obtain rfl := hr
          exact .inr ((assignee_eq hf).symm.trans ha)
  | commitTask w t archived now =>
    simp only [upToDate, Bool.or_eq_true, Option.all_eq_true, Option.isNone_iff_eq_none]
    cases hc : db.archiveConflict t archived with
    | true => exact .inl (.inl rfl)
    | false =>
      cases hw : db.workers.find w with
      | none => exact .inl (.inr rfl)
      | some worker =>
        refine .inr fun task hf => ?_
        obtain ⟨r, db', hq⟩ : ∃ r db', (Write.commitTask w t archived now).run clock db =
            .ok (r, db') := commitTask_run hc hw _
        have ha : db'.status t = some (.archived archived.state) := by
          refine status_archived (commitTask_active hq) ?_
          obtain ⟨-, _, -, -, ⟨-, rfl⟩ | ⟨-, rfl⟩⟩ := commitTask_ok hq <;>
          exact Table.find_set_self _ _ _
        rcases h r db' hq t _ (status_active hf) with h | ⟨st', h, hl⟩
        · rw [ha] at h
          cases h
        · obtain rfl := Option.some.inj (ha.symm.trans h)
          generalize hst : task.state = st₀, harch : archived.state = st₁ at hl
          cases hl with
          | cancelled hc => cases hc
          | committed hw =>
            exact decide_eq_true ⟨rfl, (assignee_eq hf).symm.trans hw⟩
  | shutdownWorkersByUuids userId uuids op =>
    cases op with
    | graceful => rfl
    | force =>
      simp only [upToDate, List.all_eq_true, Option.all_eq_true, Bool.or_eq_true,
        decide_eq_true_eq, Option.any_eq_true]
      intro e he t ht task hf
      have hm : t ∈ (db.administeredWorkers userId uuids).filterMap fun e => e.2.assignedTaskId :=
        List.mem_filterMap.2 ⟨e, he, ht⟩
      rcases respects_row (h _ _ rfl) hf (reset_uuids hf hm rfl) with hr | hl
      · exact .inl hr
      · cases hl with
        | revived ha hr =>
          obtain ⟨-, worker, hw⟩ := hr
          exact .inr ⟨_, (assignee_eq hf).symm.trans ha, List.mem_map_of_mem hw⟩
  | _ => rfl

end Db
theorem upToDate_of_respects {s s' : State} (hs : s.step a = some s')
    (h : s.Respects a s') : s.upToDate a = true := by
  cases a with
  | step i fault =>
    cases fault with
    | some => rfl
    | none =>
      simp only [State.upToDate]
      split
      next q hn =>
        refine Db.upToDate_of_respects s.infra.clock fun r db' hq => ?_
        obtain ⟨r', hx⟩ := State.step_exec hs hn
        simp only [Cmd.exec, hq, Option.some.injEq, Prod.mk.injEq] at hx
        have hdb : s'.infra.db = db' := by rw [← hx.2]
        intro t st hst
        rcases h t st hst with h | ⟨i', q', st', ha, hn', h, hl⟩
        · exact .inl (hdb ▸ h)
        · obtain ⟨⟩ := ha
          obtain ⟨⟩ := hn.symm.trans hn'
          exact .inr ⟨st', hdb ▸ h, hl⟩
      next => rfl
  | _ => rfl

/-- In a run the tasks make only changes of the lifecycle if and only if every write by the id
of a task finds the row as its handler knows it. -/
theorem lifecycle_iff_upToDate :
    Path State.step (fun s a => ∀ s', s.step a = some s' → s.Respects a s')
      (State.initial accounts timeout clock) as s ↔
    Path State.step (fun s a => s.upToDate a = true)
      (State.initial accounts timeout clock) as s := by
  constructor
  · intro h
    induction h with
    | nil => exact .nil
    | snoc hp hr hs ih => exact .snoc ih (upToDate_of_respects hs (hr _ hs)) hs
  · intro h
    induction h with
    | nil => exact .nil
    | snoc hp hu hs ih => exact .snoc ih (fun _ hs' => respects_of_upToDate hp hs' hu) hs

open RunDemo in
/-- A worker reports Finish and then Cancel for its task. -/
theorem cancelled_after_finished : ∃ s s',
    Path State.step (fun _ _ => True) start (register 0 ++ submit 1 ++ fetch 2 1 1 ++
      .call (.reportTask 1 0 1 .finish) :: steps 3 3 ++
      .call (.reportTask 1 0 1 .cancel) :: steps 4 2) s ∧
    s.step (.step 4 none) = some s' ∧
    s.infra.db.status 1 = some (.active .finished) ∧
    s'.infra.db.status 1 = some (.active .cancelled) ∧ ¬s.Respects (.step 4 none) s' := by
  have hrun : (Path.follow State.step (fun _ _ => true) start (register 0 ++ submit 1 ++
      fetch 2 1 1 ++ .call (.reportTask 1 0 1 .finish) :: steps 3 3 ++
      .call (.reportTask 1 0 1 .cancel) :: steps 4 2)).any (fun s =>
        s.infra.db.status 1 = some (.active .finished) &&
        (s.step (.step 4 none)).any fun s' =>
          s'.infra.db.status 1 = some (.active .cancelled)) = true := by decide
  obtain ⟨s, hp, hs⟩ := Path.of_follow_any hrun
  simp only [Bool.and_eq_true, Option.any_eq_true, decide_eq_true_eq] at hs
  obtain ⟨hst, s', hs', hst'⟩ := hs
  refine ⟨s, s', hp.mono fun _ _ _ => trivial, hs', hst, hst', fun h => ?_⟩
  rcases h 1 _ hst with h | ⟨_, _, _, _, _, h, hl⟩
  · cases hst'.symm.trans h
  · obtain rfl := Option.some.inj (hst'.symm.trans h)
    cases hl

end Mitosis
