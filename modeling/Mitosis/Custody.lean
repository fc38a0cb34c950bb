import Mitosis.Proof.Duties

namespace Mitosis
set_option autoImplicit true

namespace Db

def holds (db : Db) (w : WorkerId) (t : TaskId) : Bool :=
  (db.activeTasks.find t).any fun task =>
    task.state.isTaken && decide (task.assignedWorker = some w)

def holdsOnly (db : Db) (w : WorkerId) (ts : List TaskId) : Bool :=
  db.activeTasks.keys.all fun t => !db.holds w t || decide (t ∈ ts)

/-- The row of the worker records no task that it holds, but possibly `t`. -/
def recordsOnly (db : Db) (w : WorkerId) (t : TaskId) : Bool :=
  (db.workers.find w).all fun worker =>
    worker.assignedTaskId.all fun t' => decide (t' = t) || !db.holds w t'

def keepsHeld (db : Db) : Write → Bool
  | .assignTask w t _ => (db.workers.find w).isSome ||
    (db.activeTasks.find t).all fun task => !decide (task.assignedWorker = none ∧ task.state = .ready)
  | .linkWorker w t _ => db.recordsOnly w t
  | .reportState _ t _ _ => (db.activeTasks.find t).all fun task => task.state.isTaken
  | .commitTask w t archived _ => db.archiveConflict t archived ||
    (db.workers.find w).all fun worker =>
      match worker.state with
      | .normal => db.recordsOnly w t
      | .gracefulShutdown => db.holdsOnly w [t]
  | .deleteWorker w => db.holdsOnly w []
  | .shutdownWorkersByFilter groupId req => decide (req.op = .force) ||
    db.workers.rows.all fun e => !db.shutdownSelects groupId req e.1 e.2 ||
      e.2.assignedTaskId.isSome || db.holdsOnly e.1 []
  | .shutdownWorkersByUuids userId uuids op =>
    let workers := db.administeredWorkers userId uuids
    match op with
    | .force => workers.all fun e => db.holdsOnly e.1 (workers.filterMap fun e => e.2.assignedTaskId)
    | .graceful => workers.all fun e => e.2.assignedTaskId.isSome || db.holdsOnly e.1 []
  | _ => true

end Db

def State.keepsHeld (s : State) : Action → Bool
  | .step i none =>
    match s.next i with
    | some (.write q) => s.infra.db.keepsHeld q
    | _ => true
  | .step i (some _) =>
    match s.next i with
    | some (.write (.linkWorker w t _)) => !s.infra.db.holds w t
    | _ => true
  | _ => true

/-- A `fetch_task` is about to record the task in the row of the worker. -/
def State.linking (s : State) (w : WorkerId) (t : TaskId) : Prop :=
  ∃ i now, s.next i = some (.write (.linkWorker w t now))

/-- Every task that was taken names a worker, and the row of the worker records the task. -/
def Db.Linked (db : Db) : Prop :=
  ∀ t task, db.activeTasks.find t = some task →
    task.state = .running ∨ task.state = .finished ∨ task.state = .cancelled →
    ∃ w worker, task.assignedWorker = some w ∧ db.workers.find w = some worker ∧
      worker.assignedTaskId = some t

/-- Every task that was taken has a worker, whose row records it or is about to. -/
def Custody (s : State) : Prop :=
  ∀ t task, s.infra.db.activeTasks.find t = some task → task.state.isTaken = true →
    ∃ w worker, task.assignedWorker = some w ∧ s.infra.db.workers.find w = some worker ∧
      (worker.assignedTaskId = some t ∨ s.linking w t)

namespace Db
variable {db db' : Db} {t : TaskId} {w : WorkerId}

theorem holds_iff : db.holds w t = true ↔ ∃ task, db.activeTasks.find t = some task ∧
    task.state.isTaken = true ∧ task.assignedWorker = some w := by
  simp only [holds, Option.any_eq_true, Bool.and_eq_true, decide_eq_true_eq]

theorem holdsOnly_iff : db.holdsOnly w ts = true ↔ ∀ t, db.holds w t = true → t ∈ ts := by
  simp only [holdsOnly, List.all_eq_true, Bool.or_eq_true, Bool.not_eq_true', decide_eq_true_eq]
  constructor
  · intro h t ht
    obtain ⟨task, hf, -⟩ := holds_iff.1 ht
    rcases h t (Table.mem_keys.2 ⟨task, hf⟩) with hn | hm
    · rw [ht] at hn
      cases hn
    · exact hm
  · intro h t _
    cases ht : db.holds w t with
    | false => exact .inl rfl
    | true => exact .inr (h t ht)

theorem recordsOnly_eq (h : db.recordsOnly w t = true) (hw : db.workers.find w = some worker)
    (hr : worker.assignedTaskId = some t') (ht : db.holds w t' = true) : t' = t := by
  simp only [recordsOnly, hw, Option.all_some, hr, ht, Bool.not_true, Bool.or_false,
    decide_eq_true_eq] at h
  exact h

theorem taken_before {q : Write} {r : q.Ret} (hq : q.run clock db = .ok (r, db'))
    (hk : db.keepsHeld q = true)
    (hn : ∀ task, q = .insertTask task → task.state.isTaken = false)
    (hf' : db'.activeTasks.find t = some task') (ht : task'.state.isTaken = true) :
    (∃ task, db.activeTasks.find t = some task ∧ task.state.isTaken = true ∧
      task.assignedWorker = task'.assignedWorker) ∨
    ∃ w now, q = .assignTask w t now ∧ task'.assignedWorker = some w ∧
      (∃ task, db.activeTasks.find t = some task ∧ task.assignedWorker = none) ∧
      (db.workers.find w).isSome = true := by
  have hc := q.taskChange hq t
  rw [hf'] at hc
  generalize hrow : db.activeTasks.find t = row at hc
  cases hc with
  | same => exact .inl ⟨task', rfl, ht, rfl⟩
  | inserted =>
    rw [hn _ rfl] at ht
    cases ht
  | assigned ha hs =>
    refine .inr ⟨_, _, rfl, rfl, ⟨_, rfl, ha⟩, ?_⟩
    simp only [keepsHeld, hrow, Option.all_some, ha, hs, and_self, decide_true, Bool.not_true,
      Bool.or_false] at hk
    exact hk
  | reported =>
    simp only [keepsHeld, hrow, Option.all_some] at hk
    exact .inl ⟨_, rfl, hk, rfl⟩
  | pushedBack | shutByFilter | shutByUuids | triggered => cases ht
  | linked | changed | touched => exact .inl ⟨_, rfl, ht, rfl⟩

theorem removed_holds {q : Write} {r : q.Ret} (hq : q.run clock db = .ok (r, db'))
    (hk : db.keepsHeld q = true) (hw : db.workers.find w = some worker)
    (hr : q.removes db w worker) (hf : db.activeTasks.find t = some task)
    (ht : task.state.isTaken = true) (ha : task.assignedWorker = some w)
    (hf' : db'.activeTasks.find t = some task') : task'.state.isTaken = false := by
  have hh : db.holds w t = true := holds_iff.2 ⟨task, hf, ht, ha⟩
  cases q with
  | deleteWorker id =>
    obtain rfl := hr
    cases holdsOnly_iff.1 hk t hh
  | commitTask id t' archived now =>
    obtain ⟨rfl, hs⟩ := hr
    have hc := (commitTask_ok hq).1
    simp only [keepsHeld, hc, hw, Option.all_some, hs, Bool.false_or] at hk
    obtain rfl := List.mem_singleton.1 (holdsOnly_iff.1 hk t hh)
    rw [commitTask_active hq] at hf'
    cases hf'
  | shutdownWorkersByFilter groupId req =>
    obtain ⟨hs, hg⟩ := hr
    cases hop : req.op with
    | force =>
      obtain rfl := Option.some.inj ((reset_filter hop hf ha hw hs hq).symm.trans hf')
      rfl
    | graceful =>
      simp only [keepsHeld, hop, reduceCtorEq, decide_false, Bool.false_or,
        List.all_eq_true] at hk
      have hk := hk (w, worker) (Table.mem_rows.2 hw)
      simp only [hs, hg hop, Bool.not_true, Option.isSome_none, Bool.or_false, Bool.false_or] at hk
      cases holdsOnly_iff.1 hk t hh
  | shutdownWorkersByUuids userId uuids op =>
    obtain ⟨hm, hg⟩ := hr
    cases op with
    | force =>
      simp only [keepsHeld, List.all_eq_true] at hk
      have hmem := holdsOnly_iff.1 (hk _ hm) t hh
      obtain rfl := Option.some.inj ((reset_uuids hf hmem hq).symm.trans hf')
      rfl
    | graceful =>
      simp only [keepsHeld, List.all_eq_true] at hk
      have hk := hk _ hm
      simp only [hg rfl, Option.isSome_none, Bool.false_or] at hk
      cases holdsOnly_iff.1 hk t hh
  | _ => exact hr.elim

theorem recorded_write {q : Write} {r : q.Ret} (hq : q.run clock db = .ok (r, db'))
    (hk : db.keepsHeld q = true) (hkeys : db.Keyed) (hf : db.activeTasks.find t = some task)
    (ht : task.state.isTaken = true) (ha : task.assignedWorker = some w)
    (hf' : db'.activeTasks.find t = some task') (ht' : task'.state.isTaken = true)
    (hw : db.workers.find w = some worker) : ∃ worker', db'.workers.find w = some worker' ∧
      (worker.assignedTaskId = some t → worker'.assignedTaskId = some t) := by
  have hh : db.holds w t = true := holds_iff.2 ⟨task, hf, ht, ha⟩
  have hc := q.workerChange hq w
  rw [hw] at hc
  generalize hrow : db'.workers.find w = row at hc
  cases hc with
  | same | retagged | kept => exact ⟨_, rfl, id⟩
  | inserted hseq => exact (Nat.ne_of_lt (hkeys.workers w worker hw) hseq).elim
  | linked =>
    refine ⟨_, rfl, fun hr => ?_⟩
    rw [recordsOnly_eq hk hw hr hh]
  | @committed _ t' archived now hs =>
    refine ⟨_, rfl, fun hr => ?_⟩
    simp only [keepsHeld, (commitTask_ok hq).1, hw, Option.all_some, hs, Bool.false_or] at hk
    obtain rfl := recordsOnly_eq hk hw hr hh
    rw [commitTask_active hq] at hf'
    cases hf'
  | removed hr =>
    rw [removed_holds hq hk hw hr hf ht ha hf'] at ht'
    cases ht'

end Db
/-- After the update that hands out a task, `fetch_task` records it in the worker's row. -/
def Cmd.links : (c : Cmd) → c.Resp → HandlerProg → Prop
  | .write (.assignTask w t time), .ok (some _), p => p.head = some (.write (.linkWorker w t time))
  | _, _, _ => True

theorem fetchTask_links (w : WorkerId) : (program (.fetchTask w)).After Cmd.links := by
  intro r
  refine ⟨trivial, ?_⟩
  cases r with
  | error => trivial
  | ok rx =>
    intro r
    refine ⟨trivial, ?_⟩
    cases r with
    | error => trivial
    | ok reply =>
      cases reply with
      | none => trivial
      | some t =>
        intro r
        refine ⟨trivial, ?_⟩
        cases r with
        | error => trivial
        | ok time =>
          intro r
          cases r with
          | error => exact ⟨trivial, trivial⟩
          | ok task =>
            cases task with
            | none => exact ⟨trivial, trivial⟩
            | some task =>
              refine ⟨rfl, fun r => ⟨trivial, ?_⟩⟩
              cases r <;> trivial

theorem program_links (c : Call) : (program c).After Cmd.links := by
  by_cases hc : ∃ w, c = .fetchTask w
  · obtain ⟨w, rfl⟩ := hc
    exact fetchTask_links w
  · refine program_after fun K cmd r p hs => ?_
    unfold Cmd.links
    split
    next w t time task => exact (hc ⟨w, hs.1⟩).elim
    next => trivial

theorem Cmd.exec_link {s s' : Infra} {r : (Cmd.write (.linkWorker w t time)).Resp}
    (hx : (Cmd.write (.linkWorker w t time)).exec none s = some (r, s'))
    (hw : s.db.workers.find w = some worker) : ∃ worker,
      s'.db.workers.find w = some worker ∧ worker.assignedTaskId = some t := by
  simp only [exec, Write.run, Db.updateWorker, hw, Option.some.injEq, Prod.mk.injEq] at hx
  rw [← hx.2]
  simp only [Table.find_update_self, hw, Option.map_some, Option.some.injEq, exists_eq_left']

theorem linking_step {s s' : State} (hg : Grounded log s) (hs : s.step a = some s')
    (hk : s.keepsHeld a = true) (hh : s.infra.db.holds w t = true)
    (hw : s.infra.db.workers.find w = some worker) (hl : s.linking w t) :
    s'.linking w t ∨ ∃ worker, s'.infra.db.workers.find w = some worker ∧
      worker.assignedTaskId = some t := by
  obtain ⟨i, time, hn⟩ := hl
  obtain ⟨h, hi, hp⟩ := Option.bind_eq_some_iff.1 hn
  cases hprog : h.prog with
  | ret =>
    rw [hprog] at hp
    cases hp
  | call c k =>
    rw [hprog] at hp
    obtain ⟨⟩ := hp
    rcases State.step_handler hs hi with hi' | ⟨-, ht, -⟩ | ⟨c, k', r, fault, rfl, hp', hx, -⟩
    · exact .inl ⟨i, time, by simp only [State.next, hi', Option.bind_some, hprog, Prog.head]⟩
    · have hc := (hg.sourced hi hprog).1
      simp only [Handler.isTimeout, hc] at ht
      cases ht
    · rw [hprog] at hp'
      obtain ⟨⟩ := hp'
      cases fault with
      | some e =>
        simp only [State.keepsHeld, hn, hh] at hk
        cases hk
      | none => exact .inr (Cmd.exec_link hx hw)

theorem Custody.step {s s' : State} (h : Custody s) (hg : Grounded log s)
    (hd : s.Duty Cmd.links) (hk : s.keepsHeld a = true) (hs : s.step a = some s') :
    Custody s' := by
  have hold {t task} (hf : s.infra.db.activeTasks.find t = some task)
      (ht : task.state.isTaken = true) (hkeep : ∀ w worker, task.assignedWorker = some w →
        s.infra.db.workers.find w = some worker → ∃ worker',
          s'.infra.db.workers.find w = some worker' ∧
          (worker.assignedTaskId = some t → worker'.assignedTaskId = some t)) :
      ∃ w worker, task.assignedWorker = some w ∧ s'.infra.db.workers.find w = some worker ∧
        (worker.assignedTaskId = some t ∨ s'.linking w t) := by
    obtain ⟨w, worker, ha, hw, hr⟩ := h t task hf ht
    obtain ⟨worker', hw', hkeep⟩ := hkeep w worker ha hw
    rcases hr with hr | hl
    · exact ⟨w, worker', ha, hw', .inl (hkeep hr)⟩
    · have hh := Db.holds_iff.2 ⟨task, hf, ht, ha⟩
      rcases linking_step hg hs hk hh hw hl with hl | ⟨worker', hw', hr⟩
      · exact ⟨w, worker', ha, hw', .inr hl⟩
      · exact ⟨w, worker', ha, hw', .inl hr⟩
  intro t task' hf' ht'
  cases State.step_db hs with
  | same hdb =>
    rw [hdb] at hf'
    exact hold hf' ht' fun w worker _ hw => ⟨worker, by rw [hdb]; exact hw, fun hr => hr⟩
  | accounts _ hdb =>
    rw [hdb] at hf'
    exact hold hf' ht' fun w worker _ hw => ⟨worker, by rw [hdb]; exact hw, fun hr => hr⟩
  | @write i q r ha hn he hq =>
    subst ha
    have hkq : s.infra.db.keepsHeld q = true := by simpa only [State.keepsHeld, hn] using hk
    obtain ⟨hd', k, hi, hp, hi'⟩ := State.event_handler hs he
    have hnew : ∀ task, q = .insertTask task → task.state.isTaken = false := by
      rintro task rfl
      obtain ⟨-, -, -, ⟨hst, -⟩ | ⟨hst, -⟩⟩ := hg.sourced hi hp <;> rw [hst] <;> rfl
    rcases Db.taken_before hq hkq hnew hf' ht' with ⟨task, hf, ht, ha⟩ |
      ⟨w, time, rfl, ha, ⟨task, hf, hna⟩, hw⟩
    · rw [← ha]
      exact hold hf ht fun w worker ha' hw =>
        Db.recorded_write hq hkq hg.keyed hf ht ha' hf' ht' hw
    · rcases Db.assignTask_ok hq with ⟨-, hdb, -⟩ | ⟨_, -, -, -, hr, hdb⟩
      · rw [hdb, hf] at hf'
        obtain ⟨⟩ := hf'
        rw [hna] at ha
        cases ha
      · obtain ⟨row, rfl⟩ : ∃ row, r = some row := ⟨_, hr⟩
        obtain ⟨worker, hw⟩ := Option.isSome_iff_exists.1 hw
        obtain ⟨h', hi', hl⟩ := duty_event hd hs he nofun
        refine ⟨w, worker, ha, ?_, .inr ⟨i, time, ?_⟩⟩
        · rw [hdb]
          exact hw
        · simp only [State.next, hi', Option.bind_some]
          exact hl

theorem custody_of_path {s : State}
    (hp : Path State.step (fun s a => s.keepsHeld a = true)
      (State.initial accounts timeout clock) as s) : Custody s := by
  induction hp with
  | nil =>
    intro t task hf
    cases hf
  | snoc hp hk hs ih =>
    exact ih.step (grounded_of_path hp)
      (duty_of_path program_links (fun _ _ => trivial) hp rfl) hk hs

theorem State.quiescent_next {s : State} (h : s.quiescent = true) (i : Nat) : s.next i = none := by
  cases hi : s.pool[i]? with
  | none => simp only [next, hi, Option.bind_none]
  | some hd =>
    have hr := List.all_eq_true.1 h hd (List.mem_of_getElem? hi)
    simp only [next, hi, Option.bind_some]
    obtain ⟨call, prog⟩ := hd
    cases prog with
    | ret => rfl
    | call => cases hr

/-- If no step separates a worker from a task that it holds, then whenever no handler is
midway every task that was taken is recorded by the worker it names. -/
theorem no_stranded_task {s : State}
    (hp : Path State.step (fun s a => s.keepsHeld a = true)
      (State.initial accounts timeout clock) as s) (hq : s.quiescent = true) :
    s.infra.db.Linked := by
  intro t task hf hst
  have ht : task.state.isTaken = true := by
    rcases hst with hst | hst | hst <;> rw [hst] <;> rfl
  obtain ⟨w, worker, ha, hw, hr | ⟨i, time, hl⟩⟩ := custody_of_path hp t task hf ht
  · exact ⟨w, worker, ha, hw, hr⟩
  · rw [s.quiescent_next hq i] at hl
    cases hl

open RunDemo in
/-- A worker registers, a task is submitted, and the worker fetches it. -/
theorem fetched_task_recorded : ∃ s, Path State.step (fun s a => s.keepsHeld a = true) start
      (register 0 ++ submit 1 ++ fetch 2 1 1) s ∧ s.quiescent = true ∧
    (∃ task, s.infra.db.activeTasks.find 1 = some task ∧ task.state = .running) ∧
    s.infra.db.Linked := by
  have hrun : (Path.follow State.step State.keepsHeld start
      (register 0 ++ submit 1 ++ fetch 2 1 1)).any (fun s => s.quiescent &&
        (s.infra.db.activeTasks.find 1).any fun task => task.state = .running) = true := by decide
  obtain ⟨s, hp, hs⟩ := Path.of_follow_any hrun
  simp only [Bool.and_eq_true, Option.any_eq_true, decide_eq_true_eq] at hs
  exact ⟨s, hp, hs.1, hs.2, no_stranded_task hp hs.1⟩

namespace RunDemo

def unregisteredInFetch : List Action :=
  register 0 ++ submit 1 ++ .call (.fetchTask 1) :: steps 2 1 ++ .dispatch (some 1) :: steps 2 2 ++
    .call (.unregisterWorker 1) :: steps 3 1 ++ steps 2 1 ++ steps 3 3 ++ steps 2 1

end RunDemo

open RunDemo in
/-- A worker whose row is read before its fetch takes a task, and deleted after, leaves the
task Running. -/
theorem stranded_by_unregister : ∃ s,
    Path State.step (fun _ _ => True) start unregisteredInFetch s ∧ s.quiescent = true ∧
    ¬s.infra.db.Linked := by
  have hrun : (Path.follow State.step (fun _ _ => true) start unregisteredInFetch).any
      (fun s => s.quiescent && (s.infra.db.workers.find 1).isNone &&
        (s.infra.db.activeTasks.find 1).any fun task =>
          task.state = .running ∧ task.assignedWorker = some 1) = true := by decide
  obtain ⟨s, hp, hs⟩ := Path.of_follow_any hrun
  simp only [Bool.and_eq_true, Option.any_eq_true, decide_eq_true_eq,
    Option.isNone_iff_eq_none] at hs
  obtain ⟨⟨hq, hw⟩, task, hf, hst, ha⟩ := hs
  refine ⟨s, hp.mono fun _ _ _ => trivial, hq, fun h => ?_⟩
  obtain ⟨w, worker, ha', hw', -⟩ := h 1 task hf (.inl hst)
  obtain rfl := Option.some.inj (ha.symm.trans ha')
  rw [hw] at hw'
  cases hw'

end Mitosis
