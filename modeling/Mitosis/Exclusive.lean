import Mitosis.Lifecycle

namespace Mitosis
set_option autoImplicit true

namespace Db

def RecordedOnce (db : Db) : Prop :=
  ∀ t w w' worker worker', db.workers.find w = some worker → db.workers.find w' = some worker' →
    worker.assignedTaskId = some t → worker'.assignedTaskId = some t → w = w'

def assignedAmong (db : Db) (t : TaskId) (ws : List WorkerId) : Bool :=
  (db.assignee t).all fun w => decide (w ∈ ws)

def recordedBy (db : Db) (w : WorkerId) (t : TaskId) : Bool :=
  db.workers.rows.all fun e => decide (e.1 = w ∨ e.2.assignedTaskId ≠ some t)

/-- A write that acts on a task by its id does not find it assigned to a worker that the write
is not about, and a record of a task in a worker's row is not the second one. -/
def excludes (db : Db) : Write → Bool
  | .linkWorker w t _ => (db.workers.find w).isNone || db.recordedBy w t
  | .pushBackTask w t _ => db.assignedAmong t [w]
  | .reportState w t st _ => db.assignedAmong t [w] ||
    (db.activeTasks.find t).all fun task => decide (task.state = st)
  | .commitTask w t archived _ => db.archiveConflict t archived || (db.workers.find w).isNone ||
    db.assignedAmong t [w]
  | .shutdownWorkersByUuids userId uuids .force =>
    let workers := db.administeredWorkers userId uuids
    workers.all fun e => e.2.assignedTaskId.all fun t =>
      db.assignedAmong t (workers.map Prod.fst)
  | _ => true

end Db

def Write.concerns (db : Db) (w : WorkerId) : Write → Prop
  | .reportState w' _ _ _ | .commitTask w' _ _ _ => w' = w
  | q => q.removing db w

def State.excludes (s : State) : Action → Bool
  | .step i none =>
    match s.next i with
    | some (.write q) => s.infra.db.excludes q
    | _ => true
  | _ => true

/-- After the step no task is recorded twice, and the step left every assigned task in its
state, unless it acted for the assigned worker or removed it. -/
structure State.Exclusive (s : State) (a : Action) (s' : State) : Prop where
  recorded : s'.infra.db.RecordedOnce
  kept : ∀ t task w, s.infra.db.activeTasks.find t = some task → task.assignedWorker = some w →
    (∃ task', s'.infra.db.activeTasks.find t = some task' ∧ task'.state = task.state ∧
      task'.assignedWorker = some w) ∨
    ∃ i q, a = .step i none ∧ s.next i = some (.write q) ∧ q.concerns s.infra.db w

namespace Db
variable {db db' : Db} {q : Write} {r : q.Ret} {t : TaskId} {w : WorkerId}

theorem assignedAmong_of (h : db.assignedAmong t ws = true)
    (hf : db.activeTasks.find t = some task) (ha : task.assignedWorker = some w) : w ∈ ws := by
  simp only [assignedAmong, assignee_eq hf, ha, Option.all_some, decide_eq_true_eq] at h
  exact h

theorem assignedAmong_iff : db.assignedAmong t ws = true ↔ ∀ task w,
    db.activeTasks.find t = some task → task.assignedWorker = some w → w ∈ ws := by
  simp only [assignedAmong, assignee, Option.all_eq_true, Option.bind_eq_some_iff,
    decide_eq_true_eq]
  constructor
  · intro h task w hf ha
    exact h w ⟨task, hf, ha⟩
  · rintro h w ⟨task, hf, ha⟩
    exact h task w hf ha

theorem recordedBy_iff : db.recordedBy w t = true ↔ ∀ w' worker,
    db.workers.find w' = some worker → worker.assignedTaskId = some t → w' = w := by
  simp only [recordedBy, List.all_eq_true, decide_eq_true_eq, Prod.forall, Table.mem_rows]
  exact forall_congr' fun w' => forall_congr' fun worker => imp_congr_right fun _ =>
    ⟨fun h hr => h.resolve_right fun hn => hn hr, fun h => or_iff_not_imp_right.2 fun hn =>
      h (not_not.1 hn)⟩

theorem recorded_before (hq : q.run clock db = .ok (r, db'))
    (hw : db'.workers.find w = some worker') (ht : worker'.assignedTaskId = some t) :
    (∃ worker, db.workers.find w = some worker ∧ worker.assignedTaskId = some t) ∨
      ∃ time, q = .linkWorker w t time ∧ (db.workers.find w).isSome = true := by
  have hc := q.workerChange hq w
  rw [hw] at hc
  generalize hrow : db.workers.find w = row at hc
  cases hc with
  | same => exact .inl ⟨_, rfl, ht⟩
  | inserted | committed => cases ht
  | linked =>
    obtain ⟨⟩ := ht
    exact .inr ⟨_, rfl, rfl⟩
  | retagged | kept => exact .inl ⟨_, rfl, ht⟩

/-- Before the record of a task in a worker's row no other row records it. -/
theorem linked_once (hx : db.excludes (.linkWorker w t time) = true)
    (hw : (db.workers.find w).isSome = true) (hw' : db.workers.find w' = some worker')
    (ht' : worker'.assignedTaskId = some t) : w' = w := by
  obtain ⟨worker, hw⟩ := Option.isSome_iff_exists.1 hw
  simp only [excludes, hw, Option.isNone_some, Bool.false_or] at hx
  exact recordedBy_iff.1 hx w' worker' hw' ht'

theorem RecordedOnce.write (h : db.RecordedOnce) (hq : q.run clock db = .ok (r, db'))
    (hx : db.excludes q = true) : db'.RecordedOnce := by
  intro t w w' worker worker' hw hw' ht ht'
  rcases recorded_before hq hw ht with ⟨_, hf, hr⟩ | ⟨time, rfl, hf⟩
  · rcases recorded_before hq hw' ht' with ⟨_, hf', hr'⟩ | ⟨time', rfl, hf'⟩
    · exact h t w w' _ _ hf hf' hr hr'
    · exact linked_once hx hf' hf hr
  · rcases recorded_before hq hw' ht' with ⟨_, hf', hr'⟩ | ⟨time', hl, hf'⟩
    · exact (linked_once hx hf hf' hr').symm
    · cases hl
      rfl

end Db

section
variable {s : State} {i : Nat} {hd : Handler} {q : Write} {r : q.Ret} {db' : Db}
  {k : (Cmd.write q).Resp → HandlerProg}

theorem kept_write (hg : Grounded log s) (hpath : Path State.step ok
      (State.initial accounts timeout clock) as s)
    (hi : s.pool[i]? = some hd) (hp : hd.prog = .call (.write q) k)
    (hq : q.run s.infra.clock s.infra.db = .ok (r, db')) (hx : s.infra.db.excludes q = true)
    (hf : s.infra.db.activeTasks.find t = some task) (ha : task.assignedWorker = some w) :
    (∃ task', db'.activeTasks.find t = some task' ∧ task'.state = task.state ∧
      task'.assignedWorker = some w) ∨ q.concerns s.infra.db w := by
  have htaken := taken_of_path hpath t task hf (by rw [ha]; exact nofun)
  have hc := q.taskChange hq t
  rw [hf] at hc
  generalize hrow : db'.activeTasks.find t = row at hc
  cases hc with
  | same | linked | changed | touched => exact .inl ⟨_, rfl, rfl, ha⟩
  | inserted ht =>
    have hlt := hg.keyed.tasks t (by rw [Db.Keyed.origin_active hf]; rfl)
    exact (Nat.ne_of_lt hlt ht).elim
  | assigned hn =>
    rw [ha] at hn
    cases hn
  | reported =>
    simp only [Db.excludes, hf, Option.all_some, Bool.or_eq_true, decide_eq_true_eq] at hx
    rcases hx with hx | hx
    · exact .inr (List.mem_singleton.1 (Db.assignedAmong_of hx hf ha)).symm
    · exact .inl ⟨_, rfl, hx.symm, ha⟩
  | pushedBack => exact .inr (List.mem_singleton.1 (Db.assignedAmong_of hx hf ha)).symm
  | shutByFilter hop ha' hw hs =>
    obtain rfl := Option.some.inj (ha.symm.trans ha')
    exact .inr ⟨hop, _, hw, hs⟩
  | shutByUuids hm ht =>
    simp only [Db.excludes, List.all_eq_true] at hx
    have hx := hx _ hm
    simp only [ht, Option.all_some] at hx
    obtain ⟨⟨_, worker⟩, hm, rfl⟩ := List.mem_map.1 (Db.assignedAmong_of hx hf ha)
    exact .inr ⟨rfl, worker, hm⟩
  | triggered =>
    have hpend := (trigger_pending hpath hi hp hf).1
    rw [(started_of_path hpath).unassigned t _ hf hpend] at ha
    cases ha
  | committed =>
    obtain ⟨hcon, worker, hw, -⟩ := Db.commitTask_ok hq
    simp only [Db.excludes, hcon, hw, Option.isNone_some, Bool.false_or] at hx
    exact .inr (List.mem_singleton.1 (Db.assignedAmong_of hx hf ha)).symm
  | cancelled hc =>
    rcases cancelsIn_waiting hg hi hp hc with hst | hst <;>
    · rw [hst] at htaken
      cases htaken

end

theorem exclusive_of_excludes {s s' : State}
    (hpath : Path State.step ok (State.initial accounts timeout clock) as s)
    (hr : s.infra.db.RecordedOnce) (hs : s.step a = some s') (hx : s.excludes a = true) :
    s.Exclusive a s' := by
  have hsame (hdb : s'.infra.db.workers = s.infra.db.workers)
      (hdb' : s'.infra.db.activeTasks = s.infra.db.activeTasks) : s.Exclusive a s' := by
    refine ⟨?_, fun t task w hf ha => .inl ⟨task, ?_, rfl, ha⟩⟩
    · rw [Db.RecordedOnce, hdb]
      exact hr
    · rw [hdb']
      exact hf
  cases State.step_db hs with
  | same hdb => exact hsame (congrArg Db.workers hdb) (congrArg Db.activeTasks hdb)
  | accounts _ hdb =>
    rw [hdb] at hsame
    exact hsame rfl rfl
  | @write i q r ha hn he hq =>
    subst ha
    simp only [State.excludes, hn] at hx
    obtain ⟨hd, k, hi, hp, -⟩ := State.event_handler hs he
    refine ⟨hr.write hq hx, fun t task w hf ha => ?_⟩
    rcases kept_write (grounded_of_path hpath) hpath hi hp hq hx hf ha with h | h
    · exact .inl h
    · exact .inr ⟨i, q, rfl, hn, h⟩

namespace Db
variable {db db' : Db} {q : Write} {r : q.Ret}

def keepsAssigned (db : Db) (q : Write) (db' : Db) : Prop :=
  ∀ t task w, db.activeTasks.find t = some task → task.assignedWorker = some w →
    (∃ task', db'.activeTasks.find t = some task' ∧ task'.state = task.state ∧
      task'.assignedWorker = some w) ∨ q.concerns db w

theorem concerns_of_ready (hk : db.keepsAssigned q db')
    (htaken : ∀ t task, db.activeTasks.find t = some task → task.assignedWorker ≠ none →
      task.state.isTaken = true)
    (hf : db.activeTasks.find t = some task) (ha : task.assignedWorker = some w)
    (hf' : db'.activeTasks.find t = some task') (hst : task'.state = .ready) :
    q.concerns db w := by
  rcases hk t task w hf ha with ⟨task₁, hf₁, hst₁, -⟩ | hc
  · obtain rfl := Option.some.inj (hf'.symm.trans hf₁)
    have ht := htaken t task hf (by rw [ha]; exact nofun)
    rw [← hst₁, hst] at ht
    cases ht
  · exact hc

theorem excludes_of_keeps (clock : Instant)
    (htaken : ∀ t task, db.activeTasks.find t = some task → task.assignedWorker ≠ none →
      task.state.isTaken = true)
    (h : ∀ r db', q.run clock db = .ok (r, db') → db'.RecordedOnce ∧ db.keepsAssigned q db') :
    db.excludes q = true := by
  cases q with
  | linkWorker w t time =>
    cases hw : db.workers.find w with
    | none => simp only [excludes, hw, Option.isNone_none, Bool.true_or]
    | some worker =>
      simp only [excludes, hw, Option.isNone_some, Bool.false_or, recordedBy_iff]
      intro w' worker' hw' ht'
      by_contra hne
      refine hne ((h _ _ (updateWorker_run hw _)).1 t w' w worker' _ ?_
        ((Table.find_update_self ..).trans (congrArg _ hw)) ht' rfl)
      exact (Table.find_update_ne _ _ hne).trans hw'
  | pushBackTask w t now =>
    refine assignedAmong_iff.2 fun task w' hf ha => ?_
    have hk := (h _ _ (updateTask_run hf _)).2
    have hc := concerns_of_ready hk htaken hf ha (update_row hf _) rfl
    exact List.mem_singleton.2 hc.symm
  | reportState w t st now =>
    cases hf : db.activeTasks.find t with
    | none => simp only [excludes, hf, Option.all_none, Bool.or_true]
    | some task =>
      simp only [excludes, hf, Option.all_some, Bool.or_eq_true, decide_eq_true_eq,
        assignedAmong_iff, or_iff_not_imp_right]
      intro hne task' w' hf' ha
      obtain rfl := Option.some.inj hf'
      rcases (h _ _ (updateTask_run hf _)).2 t task w' hf ha with ⟨_, hf₁, hst, -⟩ | hc
      · obtain rfl := Option.some.inj ((update_row hf _).symm.trans hf₁)
        exact (hne hst.symm).elim
      · exact List.mem_singleton.2 hc.symm
  | commitTask w t archived now =>
    simp only [excludes, Bool.or_eq_true, Option.isNone_iff_eq_none, assignedAmong_iff]
    cases hcon : db.archiveConflict t archived with
    | true => exact .inl (.inl rfl)
    | false =>
      cases hw : db.workers.find w with
      | none => exact .inl (.inr rfl)
      | some worker =>
        refine .inr fun task w' hf ha => ?_
        obtain ⟨r, db', hq⟩ := commitTask_run hcon hw now
        rcases (h r db' hq).2 t task w' hf ha with ⟨_, hf', -⟩ | hc
        · rw [commitTask_active hq] at hf'
          cases hf'
        · exact List.mem_singleton.2 hc.symm
  | shutdownWorkersByUuids userId uuids op =>
    cases op with
    | graceful => rfl
    | force =>
      simp only [excludes, List.all_eq_true, Option.all_eq_true, assignedAmong_iff]
      intro e he t ht task w hf ha
      have hm : t ∈ (db.administeredWorkers userId uuids).filterMap fun e => e.2.assignedTaskId :=
        List.mem_filterMap.2 ⟨e, he, ht⟩
      obtain ⟨-, worker, hw⟩ := concerns_of_ready (h _ _ rfl).2 htaken hf ha
        (reset_uuids hf hm rfl) rfl
      exact List.mem_map_of_mem hw
  | _ => rfl

end Db

theorem excludes_of_exclusive {s s' : State}
    (hpath : Path State.step ok (State.initial accounts timeout clock) as s)
    (hs : s.step a = some s') (h : s.Exclusive a s') : s.excludes a = true := by
  cases a with
  | step i fault =>
    cases fault with
    | some => rfl
    | none =>
      simp only [State.excludes]
      split
      next q hn =>
        refine Db.excludes_of_keeps s.infra.clock (taken_of_path hpath) fun r db' hq => ?_
        obtain ⟨r', hx⟩ := State.step_exec hs hn
        simp only [Cmd.exec, hq, Option.some.injEq, Prod.mk.injEq] at hx
        have hdb : s'.infra.db = db' := by rw [← hx.2]
        refine ⟨hdb ▸ h.recorded, fun t task w hf ha => ?_⟩
        rcases h.kept t task w hf ha with ⟨task', hf', hk⟩ | ⟨i', q', ha', hn', hc⟩
        · exact .inl ⟨task', hdb ▸ hf', hk⟩
        · obtain ⟨⟩ := ha'
          obtain ⟨⟩ := hn.symm.trans hn'
          exact .inr hc
      next => rfl
  | _ => rfl

theorem recordedOnce_of_path {s : State}
    (hp : Path State.step (fun s a => s.excludes a = true)
      (State.initial accounts timeout clock) as s) : s.infra.db.RecordedOnce := by
  induction hp with
  | nil =>
    intro t w w' worker worker' hw
    cases hw
  | snoc hp hx hs ih => exact (exclusive_of_excludes hp ih hs hx).recorded

/-- In a run no task is ever recorded by two workers, and none is taken from its worker by a
step that is not about this worker, if and only if every write by the id of a task finds the
task with the worker that it is about. -/
theorem exclusive_iff_excludes :
    Path State.step (fun s a => ∀ s', s.step a = some s' → s.Exclusive a s')
      (State.initial accounts timeout clock) as s ↔
    Path State.step (fun s a => s.excludes a = true)
      (State.initial accounts timeout clock) as s := by
  constructor
  · intro h
    induction h with
    | nil => exact .nil
    | snoc hp hr hs ih => exact .snoc ih (excludes_of_exclusive hp hs (hr _ hs)) hs
  · intro h
    induction h with
    | nil => exact .nil
    | snoc hp hx hs ih =>
      exact .snoc ih (fun _ hs' => exclusive_of_excludes hp (recordedOnce_of_path hp) hs' hx) hs

open RunDemo in
/-- A worker is unregistered, and between the two statements that put its task back and
delete its row another worker fetches the task. -/
theorem recorded_twice_in_removal : ∃ s,
    Path State.step (fun _ _ => True) start (register 0 ++ register 1 ++ submit 2 ++
      fetch 3 1 1 ++ .call (.unregisterWorker 1) :: steps 4 3 ++ fetch 5 2 1) s ∧
    ¬s.infra.db.RecordedOnce := by
  have hrun : (Path.follow State.step (fun _ _ => true) start (register 0 ++ register 1 ++
      submit 2 ++ fetch 3 1 1 ++ .call (.unregisterWorker 1) :: steps 4 3 ++ fetch 5 2 1)).any
      (fun s => ((s.infra.db.workers.find 1).any fun w => w.assignedTaskId = some 1) &&
        (s.infra.db.workers.find 2).any fun w => w.assignedTaskId = some 1) = true := by decide
  obtain ⟨s, hp, hs⟩ := Path.of_follow_any hrun
  simp only [Bool.and_eq_true, Option.any_eq_true, decide_eq_true_eq] at hs
  obtain ⟨⟨w, hw, ht⟩, w', hw', ht'⟩ := hs
  refine ⟨s, hp.mono fun _ _ _ => trivial, fun h => ?_⟩
  have := h 1 1 2 w w' hw hw' ht ht'
  cases this

end Mitosis
