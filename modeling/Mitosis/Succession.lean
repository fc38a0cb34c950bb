import Mitosis.Proof.Promises
import Mitosis.Proof.Upstream

namespace Mitosis
set_option autoImplicit true

open Prog (Promise Keeps)

/-- The task `t` is found Pending under its uuid. -/
def Cmd.finds (t : TaskId) (uuid : Uuid) : (c : Cmd) → c.Resp → Prop
  | .select (.pendingTask u), r => u = uuid → ∃ row, r = .ok (some (t, row))
  | .now, r => ∃ time, r = .ok time
  | _, _ => True

/-- The handler will link the new task to its upstream. -/
def linksNext (uuid : Uuid) : Promise Cmd Cmd.Resp :=
  ⟨fun _ _ => True, [fun c => ∃ w u time, c = .write (.setDownstream w u uuid time)]⟩

def triggersNext (t : TaskId) (uuid : Uuid) : Promise Cmd Cmd.Resp :=
  ⟨Cmd.finds t uuid, [fun c => ∃ time, c = .write (.triggerTask t time)]⟩

def Cmd.chains : (c : Cmd) → c.Resp → Promise Cmd Cmd.Resp → Prop
  | .write (.insertTask task), .ok row, o => task.state = .pending ∧ o = linksNext row.2.uuid
  | .write (.commitTask _ _ archived _), .ok _, o => ∃ uuid t,
    archived.downstreamTaskUuid = some uuid ∧ o = triggersNext t uuid
  | _, _, _ => False

namespace Service

theorem workerTriggerPendingTask_keeps :
    Keeps (workerTriggerPendingTask uuid) (triggersNext t uuid) := by
  refine Or.inr fun r hr => ?_
  obtain ⟨row, rfl⟩ := hr rfl
  refine Or.inr fun r hr => ?_
  obtain ⟨time, rfl⟩ := hr
  exact Or.inl ⟨⟨time, rfl⟩, fun _ _ => Prog.leads_nil _⟩

theorem reportCommit_pays : Pays Cmd.chains (reportCommit w wu t task res time) := by
  rw [reportCommit]
  split
  · trivial
  refine pays_write (fun _ _ => id) (fun ws o ho => ?_) fun ws => ?_
  · obtain ⟨uuid, t', hd, rfl⟩ := ho
    have hk : Keeps (triggerDownstream task.downstreamTaskUuid >>= fun _ =>
        unregisterGraceful w ws : Service Unit) (triggersNext t' uuid) := by
      rw [show task.downstreamTaskUuid = some uuid from hd]
      exact workerTriggerPendingTask_keeps.bind _
    refine Or.inr fun r _ => ?_
    cases r <;> exact hk
  · refine pays_idle ?_
    cases task.downstreamTaskUuid <;> cases ws <;>
    simp [removeTask, triggerDownstream, workerTriggerPendingTask, unregisterGraceful, Idle,
      Cmd.chains, forall_except]

theorem workerSubmitPendingTask_pays {f : Except Error SubmitTaskResp → Prog Cmd Cmd.Resp α}
    (hk : ∀ resp, Keeps (f (.ok resp)) (linksNext resp.uuid))
    (hf : ∀ r, (f r).Pays Cmd.chains) :
    (Prog.bind (workerSubmitPendingTask creatorId uuid req) f).Pays Cmd.chains := by
  intro r
  refine ⟨fun _ => False.elim, ?_⟩
  cases r with
  | error => exact hf _
  | ok time =>
    intro r
    refine ⟨fun _ => False.elim, ?_⟩
    rcases r with _ | ⟨_ | group⟩
    · exact hf _
    · exact hf _
    intro r
    refine ⟨fun _ => False.elim, ?_⟩
    cases r with
    | error => exact hf _
    | ok next =>
      cases hs : checkTaskSpec req.taskSpec with
      | error => exact hf _
      | ok =>
        intro r
        cases r with
        | error => exact ⟨fun _ => False.elim, hf _⟩
        | ok row =>
          refine ⟨fun o ho => ?_, hf _⟩
          obtain ⟨-, rfl⟩ := ho
          exact hk _

theorem reportSubmit_pays : Pays Cmd.chains (reportSubmit w t task req time) := by
  rw [reportSubmit]
  split
  · trivial
  refine pays_bind (pays_recover (pays_idle ?_) fun _ => trivial) fun user => ?_
  · simp [Idle, Cmd.chains]
  refine pays_bind (pays_idle ?_) fun user => ?_
  · simp
  split
  · trivial
  refine pays_bind (pays_idle ?_) fun group => ?_
  · simp [Idle, Cmd.chains]
  refine pays_bind (pays_idle ?_) fun group => ?_
  · simp
  split
  · trivial
  refine pays_bind (pays_idle ?_) fun role => ?_
  · simp [Idle, Cmd.chains]
  refine pays_bind (pays_idle ?_) fun role => ?_
  · simp
  refine Prog.Pays.assoc (workerSubmitPendingTask_pays (fun resp => ?_) fun r => ?_)
  · exact Or.inl ⟨⟨w, t, time, rfl⟩, fun _ _ => Prog.leads_nil _⟩
  · cases r with
    | error => trivial
    | ok resp =>
      refine pays_bind (pays_idle ?_) fun _ => trivial
      simp [Idle, Cmd.chains]

theorem reportTask_pays : Pays Cmd.chains (reportTask w wu t op) := by
  refine pays_bind (pays_idle ?_) fun time => ?_
  · simp [Idle, Cmd.chains]
  refine pays_bind (pays_idle ?_) fun task => ?_
  · simp [Idle, Cmd.chains]
  refine pays_bind (pays_idle ?_) fun task => ?_
  · simp
  split
  · trivial
  cases op with
  | finish | cancel =>
    refine pays_bind (pays_idle ?_) fun _ => trivial
    simp [Idle, Cmd.chains]
  | submit => exact pays_bind reportSubmit_pays fun _ => trivial
  | commit => exact pays_bind reportCommit_pays fun _ => trivial
  | upload =>
    refine pays_bind (pays_idle ?_) fun _ => trivial
    rw [groupUploadArtifact]
    simp [Idle, Cmd.chains, forall_except]
    intros
    split <;> simp [Idle, Cmd.chains]

end Service

open Service in
theorem program_chains (c : Call) : (program c).Pays Cmd.chains := by
  by_cases hc : ∃ w wu t op, c = .reportTask w wu t op
  · obtain ⟨w, wu, t, op, rfl⟩ := hc
    exact pays_once _ reportTask_pays
  · refine program_after fun K cmd r p hs o ho => ?_
    unfold Cmd.chains at ho
    split at ho
    next task row =>
      obtain ⟨-, -, -, ⟨hst, -⟩ | ⟨-, w, wu, t, req, -, hcall, -⟩⟩ := hs
      · rw [hst] at ho
        cases ho.1
      · exact (hc ⟨w, wu, t, _, hcall⟩).elim
    next w t archived time st =>
      obtain ⟨wu, res, _, _, hcall, -⟩ := hs
      exact (hc ⟨w, wu, t, _, hcall⟩).elim
    next => exact ho.elim

namespace Db

def waits (db : Db) (uuid : Uuid) : Bool := (db.findPendingTask uuid).isSome

def cancels (db : Db) : Write → Table TaskId ActiveTask
  | .cancelTask userId uuid =>
    match db.findReadyTask uuid with
    | some (id, task) =>
      if (db.checkWriter userId task.groupId).toBool then Table.empty.set id task else .empty
    | none => .empty
  | .cancelTasksByFilter filter => db.filteredTasks filter
  | .cancelTasksByUuids userId uuids => db.cancellableTasks userId uuids
  | _ => .empty

/-- No write that takes effect, and no failing one, breaks the link from a task to a successor
that waits for it. -/
def keepsChain (db : Db) : Write → Bool
  | .setDownstream _ u uuid _ => (db.activeTasks.find u).elim (!db.waits uuid) fun task =>
    task.downstreamTaskUuid.all fun d => decide (d = uuid) || !db.waits d
  | .commitTask w t archived _ => db.archiveConflict t archived || (db.workers.find w).isNone ||
    (db.activeTasks.find t).all fun task => task.downstreamTaskUuid.all fun d =>
      decide (archived.downstreamTaskUuid = some d) || !db.waits d
  | q => (db.cancels q).rows.all fun e => e.2.downstreamTaskUuid.all fun d =>
    (db.findPendingTask d).all fun p => ((db.cancels q).find p.1).isSome

def mayFail (db : Db) : Cmd → Bool
  | .select (.pendingTask uuid) => !db.waits uuid
  | .write (.setDownstream _ _ uuid _) => !db.waits uuid
  | .write (.triggerTask t _) => (db.activeTasks.find t).all fun task => task.state ≠ .pending
  | _ => true

def PendingChain (db : Db) : Prop :=
  ∀ t task, db.activeTasks.find t = some task → task.state = .pending →
    ∃ u up, db.activeTasks.find u = some up ∧ task.upstreamTaskUuid = some up.uuid ∧
      up.downstreamTaskUuid = some task.uuid

end Db

/-- The step is not one of those that break the chain from a task to its successor. -/
def State.keepsChain (s : State) : Action → Bool
  | .step i none =>
    match s.next i with
    | some (.write q) => s.infra.db.keepsChain q
    | _ => true
  | .step i (some _) => (s.next i).all s.infra.db.mayFail
  | _ => true

def Db.named (db : Db) (uuid : Uuid) : Prop :=
  ∃ u up, db.activeTasks.find u = some up ∧ up.downstreamTaskUuid = some uuid

def Call.steady (c : Call) : Prop := ∀ w, c ≠ .timeout w

def Succession (s : State) : Prop :=
  ∀ t task, s.infra.db.activeTasks.find t = some task → task.state = .pending →
    s.infra.db.named task.uuid ∨ s.owing Call.steady (linksNext task.uuid) ∨
      s.owing Call.steady (triggersNext t task.uuid)

namespace Db
variable {db db' : Db} {q : Write} {r : q.Ret} {t : TaskId}

theorem Keyed.waits_eq (hk : db.Keyed) (hf : db.activeTasks.find t = some task)
    (hst : task.state = .pending) : db.waits task.uuid = true := by
  rw [waits, hk.findPendingTask_eq hf hst]
  rfl

theorem cancelTask_found {u : TaskId} (h : cancelTask userId uuid now db = .ok (u, db')) :
    ∃ task, db.findReadyTask uuid = some (u, task) ∧
      db.checkWriter userId task.groupId = .ok () := by
  rw [cancelTask] at h
  split at h
  next => cases h
  next id task hf =>
    obtain ⟨⟨⟩, hw, h⟩ := bind_ok h
    obtain ⟨_, _, h⟩ := bind_ok h
    obtain ⟨⟩ := h
    exact ⟨task, hf, hw⟩

theorem cancels_active (h : (db.cancels q).find t = some task) :
    db.activeTasks.find t = some task := by
  unfold cancels at h
  split at h
  next =>
    split at h
    next u task' hf =>
      split at h
      next =>
        rw [Table.find_set] at h
        split at h
        next ht =>
          obtain ⟨⟩ := h
          rw [ht]
          exact (Table.findWhere_some hf).1
        next => cases h
      next => cases h
    next => cases h
  next => exact (filteredTasks_find h).1
  next => exact (cancellableTasks_find h).1
  next => cases h

/-- A user's cancellation takes away the tasks that it selects, and no others. -/
theorem cancels_find (hq : q.run clock db = .ok (r, db')) (hc : q.cancelsIn st = true) :
    db'.activeTasks.find t =
      if ((db.cancels q).find t).isSome then none else db.activeTasks.find t := by
  have hdel {rows : Table TaskId ActiveTask}
      (ha : archive (rows.mapRows (cancelledTask clock)) db = .ok ((), db')) :
      db'.activeTasks.find t =
        if (rows.find t).isSome then none else db.activeTasks.find t := by
    obtain ⟨-, rfl⟩ := archive_ok ha
    simp only [Table.find_deleteWhere, Table.find_mapRows, Option.isSome_map]
    cases (rows.find t).isSome <;> cases db.activeTasks.find t <;> rfl
  cases q with
  | cancelTask =>
    obtain ⟨task, hf, hw⟩ := cancelTask_found hq
    obtain ⟨_, _, _, _, rfl⟩ := cancelTask_ok hq
    simp only [cancels, hf, hw, Except.toBool, if_true, Table.find_set, Table.find_erase,
      Table.find_empty]
    split <;> rfl
  | cancelTasksByFilter => exact hdel (cancelTasksByFilter_ok hq).2
  | cancelTasksByUuids => exact hdel (cancelTasksByUuids_ok hq).2
  | _ => cases hc

theorem pending_before (hq : q.run clock db = .ok (r, db'))
    (hst : ∀ w t st time, q = .reportState w t st time → st ≠ .pending)
    (hf' : db'.activeTasks.find t = some task') (hp : task'.state = .pending) :
    (∃ task, db.activeTasks.find t = some task ∧ task.state = .pending ∧
      task.uuid = task'.uuid) ∨ q = .insertTask task' ∧ t = db.taskSeq := by
  have hc := q.taskChange hq t
  rw [hf'] at hc
  generalize hrow : db.activeTasks.find t = row at hc
  cases hc with
  | same => exact .inl ⟨_, rfl, hp, rfl⟩
  | inserted ht => exact .inr ⟨rfl, ht⟩
  | reported => exact (hst _ _ _ _ rfl hp).elim
  | assigned | pushedBack | shutByFilter | shutByUuids | triggered => cases hp
  | linked | changed | touched => exact .inl ⟨_, rfl, hp, rfl⟩

/-- The link to a waiting task is kept, unless the task that holds it is committed. -/
theorem named_write (hk : db.Keyed) (hq : q.run clock db = .ok (r, db'))
    (hx : db.keepsChain q = true) (hf : db.activeTasks.find t = some task)
    (hst : task.state = .pending) (hf' : db'.activeTasks.find t ≠ none)
    (hn : db.named task.uuid) : db'.named task.uuid ∨
      ∃ w u archived time, q = .commitTask w u archived time ∧
        archived.downstreamTaskUuid = some task.uuid := by
  obtain ⟨u, up, hu, hd⟩ := hn
  have hc := q.taskChange hq u
  rw [hu] at hc
  generalize hrow : db'.activeTasks.find u = row at hc
  cases hc with
  | same => exact .inl ⟨u, _, hrow, hd⟩
  | inserted ht =>
    have hlt := hk.tasks u (by rw [Keyed.origin_active hu]; rfl)
    exact (Nat.ne_of_lt hlt ht).elim
  | linked =>
    simp only [keepsChain, hu, Option.elim_some, hd, Option.all_some, hk.waits_eq hf hst,
      Bool.not_true, Bool.or_false, decide_eq_true_eq] at hx
    exact .inl ⟨u, _, hrow, congrArg some hx.symm⟩
  | assigned | reported | pushedBack | shutByFilter | shutByUuids | triggered | changed
    | touched => exact .inl ⟨u, _, hrow, hd⟩
  | @committed w archived time _ =>
    obtain ⟨hcon, worker, hw, -⟩ := commitTask_ok hq
    simp only [keepsChain, hcon, hw, hu, hd, Option.isNone_some, Option.all_some,
      hk.waits_eq hf hst, Bool.not_true, Bool.or_false, Bool.false_or, decide_eq_true_eq] at hx
    exact .inr ⟨w, u, archived, time, rfl, hx⟩
  | cancelled hc =>
    have hsel := cancels_find (t := u) hq hc
    rw [hrow, hu] at hsel
    cases hrow' : (db.cancels q).find u with
    | none =>
      rw [hrow'] at hsel
      cases hsel
    | some up' =>
      obtain rfl := Option.some.inj (hu.symm.trans (cancels_active hrow'))
      have hall : ((db.cancels q).rows.all fun e => e.2.downstreamTaskUuid.all fun d =>
          (db.findPendingTask d).all fun p => ((db.cancels q).find p.1).isSome) = true := by
        cases q <;> first | exact hx | cases hc
      have hall := List.all_eq_true.1 hall (u, up) (Table.mem_rows.2 hrow')
      simp only [hd, Option.all_some, hk.findPendingTask_eq hf hst] at hall
      rw [cancels_find hq hc, hall] at hf'
      exact (hf' rfl).elim

end Db

section
variable {s s' : State} {t : TaskId} {task : ActiveTask}

theorem Call.steady.not_timeout {h : Handler} (hc : h.call.steady) : h.isTimeout = false := by
  unfold Handler.isTimeout
  split
  next w hw => exact (hc w hw).elim
  next => rfl

theorem linksNext_step (hkeyed : s.infra.db.Keyed) (hk : s.keepsChain a = true)
    (hs : s.step a = some s') (hf : s.infra.db.activeTasks.find t = some task)
    (hst : task.state = .pending) (ho : s.owing Call.steady (linksNext task.uuid)) :
    s'.infra.db.named task.uuid ∨ s'.owing Call.steady (linksNext task.uuid) := by
  rcases owing_step ho hs with ho | ⟨_, h, -, -, hc, ht, -⟩ | ⟨i, c, r, he, hg⟩
  · exact .inr ho
  · rw [hc.not_timeout] at ht
    cases ht
  · obtain ⟨⟨w, u, time, rfl⟩, -⟩ := hg trivial
    obtain ⟨fault, rfl, hn, hx⟩ := State.event_exec hs he
    have hw := hkeyed.waits_eq hf hst
    cases fault with
    | some e =>
      simp only [State.keepsChain, hn, Option.all_some, Db.mayFail, hw] at hk
      cases hk
    | none =>
      simp only [State.keepsChain, hn, Db.keepsChain, hw] at hk
      cases hu : s.infra.db.activeTasks.find u with
      | none =>
        rw [hu] at hk
        cases hk
      | some up =>
        simp only [Cmd.exec, Write.run, Db.updateTask_run hu, Option.some.injEq,
          Prod.mk.injEq] at hx
        rw [← hx.2]
        exact .inl ⟨u, _, Db.update_row hu _, rfl⟩

theorem triggersNext_step (hkeyed : s.infra.db.Keyed) (hk : s.keepsChain a = true)
    (hs : s.step a = some s') (hf : s.infra.db.activeTasks.find t = some task)
    (hst : task.state = .pending) (hf' : s'.infra.db.activeTasks.find t = some task')
    (hst' : task'.state = .pending) (ho : s.owing Call.steady (triggersNext t task.uuid)) :
    s'.owing Call.steady (triggersNext t task.uuid) := by
  rcases owing_step ho hs with ho | ⟨_, h, -, -, hc, ht, -⟩ | ⟨i, c, r, he, hg⟩
  · exact ho
  · rw [hc.not_timeout] at ht
    cases ht
  obtain ⟨fault, rfl, hn, hx⟩ := State.event_exec hs he
  have hgood : Cmd.finds t task.uuid c r := by
    unfold Cmd.finds
    split
    next uuid =>
      rintro rfl
      obtain ⟨-, ⟨e, rfl, -⟩ | ⟨-, rfl⟩⟩ := Cmd.exec_select hx
      · simp only [State.keepsChain, hn, Option.all_some, Db.mayFail,
          hkeyed.waits_eq hf hst] at hk
        cases hk
      · exact ⟨task, congrArg Except.ok (hkeyed.findPendingTask_eq hf hst)⟩
    next =>
      simp only [Cmd.exec, Option.some.injEq, Prod.mk.injEq] at hx
      exact ⟨_, hx.1.symm⟩
    next => trivial
  obtain ⟨⟨time, rfl⟩, -⟩ := hg hgood
  cases fault with
  | some e =>
    simp only [State.keepsChain, hn, Option.all_some, Db.mayFail, hf, hst] at hk
    cases hk
  | none =>
    simp only [Cmd.exec, Write.run, Db.updateTask_run hf, Option.some.injEq,
      Prod.mk.injEq] at hx
    rw [← hx.2] at hf'
    obtain rfl := Option.some.inj ((Db.update_row hf _).symm.trans hf')
    cases hst'

theorem Succession.step (h : Succession s)
    (hpath : Path State.step ok (State.initial accounts timeout clock) as s)
    (hd : s.Duty fun c r p => ∀ o, Cmd.chains c r o → Keeps p o)
    (hk : s.keepsChain a = true) (hs : s.step a = some s') : Succession s' := by
  have hg := grounded_of_path hpath
  have hold {t task task'} (hf : s.infra.db.activeTasks.find t = some task)
      (hst : task.state = .pending) (hf' : s'.infra.db.activeTasks.find t = some task')
      (hst' : task'.state = .pending) (hu : task.uuid = task'.uuid)
      (hnamed : s.infra.db.named task.uuid → s'.infra.db.named task.uuid ∨
        s'.owing Call.steady (triggersNext t task.uuid)) :
      s'.infra.db.named task'.uuid ∨ s'.owing Call.steady (linksNext task'.uuid) ∨
        s'.owing Call.steady (triggersNext t task'.uuid) := by
    rw [← hu]
    rcases h t task hf hst with hn | hl | ht
    · exact (hnamed hn).imp_right .inr
    · exact (linksNext_step hg.keyed hk hs hf hst hl).imp_right .inl
    · exact .inr (.inr (triggersNext_step hg.keyed hk hs hf hst hf' hst' ht))
  intro t task' hf' hst'
  cases State.step_db hs with
  | same hdb =>
    have hf := hf'
    rw [hdb] at hf
    refine hold hf hst' hf' hst' rfl fun hn => .inl ?_
    rw [hdb]
    exact hn
  | accounts _ hdb =>
    have hf := hf'
    rw [hdb] at hf
    refine hold hf hst' hf' hst' rfl fun hn => .inl ?_
    rw [hdb]
    exact hn
  | @write i q r ha hn he hq =>
    subst ha
    have hkq : s.infra.db.keepsChain q = true := by simpa only [State.keepsChain, hn] using hk
    obtain ⟨hd', k, hi, hp, -⟩ := State.event_handler hs he
    have hreport : ∀ w t st time, q = .reportState w t st time → st ≠ .pending := by
      rintro w t st time rfl
      exact Started.report_final hg hi hp
    rcases Db.pending_before hq hreport hf' hst' with ⟨task, hf, hst, hu⟩ | ⟨rfl, -⟩
    · refine hold hf hst hf' hst' hu fun hnamed => ?_
      have hne : s'.infra.db.activeTasks.find t ≠ none := by
        rw [hf']
        exact nofun
      rcases Db.named_write hg.keyed hq hkq hf hst hne hnamed with hn' |
        ⟨w, u, archived, time, rfl, hdown⟩
      · exact .inl hn'
      · refine .inr (owing_event hd hs he ⟨_, t, hdown, rfl⟩ fun hd₁ hi₁ w' hw' => ?_)
        obtain ⟨_, _, _, _, hcall, -⟩ := hg.sourced hi₁
          (show hd₁.prog = .call (.write (.commitTask w u archived time)) k from by
            rw [Option.some.inj (hi₁.symm.trans hi)]
            exact hp)
        rw [hw'] at hcall
        cases hcall
    · obtain ⟨-, rfl, -⟩ := Db.insertTask_ok hq
      refine .inr (.inl (owing_event hd hs he ⟨hst', rfl⟩ fun hd₁ hi₁ w' hw' => ?_))
      obtain rfl := Option.some.inj (hi₁.symm.trans hi)
      obtain ⟨-, -, -, ⟨hr, -⟩ | ⟨-, _, _, _, _, _, hcall, -⟩⟩ := hg.sourced hi hp
      · rw [hst'] at hr
        cases hr
      · rw [hw'] at hcall
        cases hcall

end

theorem succession_of_path {s : State}
    (hp : Path State.step (fun s a => s.keepsChain a = true)
      (State.initial accounts timeout clock) as s) : Succession s := by
  induction hp with
  | nil =>
    intro t task hf
    cases hf
  | snoc hp hk hs ih =>
    exact ih.step hp (duty_of_path program_chains (fun _ _ _ ho => ho.elim) hp rfl) hk hs

/-- If no step breaks the chain from a task to its waiting successor, then whenever no handler
is midway every pending task has an active upstream that names it. -/
theorem pending_chain {s : State}
    (hp : Path State.step (fun s a => s.keepsChain a = true)
      (State.initial accounts timeout clock) as s) (hq : s.quiescent = true) :
    s.infra.db.PendingChain := by
  intro t task hf hst
  rcases succession_of_path hp t task hf hst with ⟨u, up, hu, hd⟩ | ho | ho
  · refine ⟨u, up, hu, ?_, hd⟩
    obtain ⟨t', o, ho, huuid, hup⟩ := (chained_of_path hp).linked u up _ hu hd
    have hkeyed := (grounded_of_path hp).keyed
    have hf' := Db.Keyed.origin_active hf
    obtain rfl := hkeyed.uuids t' t _ _ ho hf' huuid
    obtain rfl := Option.some.inj (ho.symm.trans hf')
    exact hup
  · exact (quiescent_owing hq ho).elim
  · exact (quiescent_owing hq ho).elim

open RunDemo in
/-- A worker finishes its task, and submits a successor of it. -/
theorem successor_linked : ∃ s, Path State.step (fun s a => s.keepsChain a = true) start
      (register 0 ++ submit 1 ++ fetch 2 1 1 ++ finish 3 1 1 ++ succeed 4 1 1) s ∧
    s.quiescent = true ∧
    (∃ task, s.infra.db.activeTasks.find 2 = some task ∧ task.state = .pending) ∧
    s.infra.db.PendingChain := by
  have hrun : (Path.follow State.step State.keepsChain start (register 0 ++ submit 1 ++
      fetch 2 1 1 ++ finish 3 1 1 ++ succeed 4 1 1)).any (fun s => s.quiescent &&
        (s.infra.db.activeTasks.find 2).any fun task => task.state = .pending) = true := by decide
  obtain ⟨s, hp, hs⟩ := Path.of_follow_any hrun
  simp only [Bool.and_eq_true, Option.any_eq_true, decide_eq_true_eq] at hs
  exact ⟨s, hp, hs.1, hs.2, pending_chain hp hs.1⟩

open RunDemo in
/-- A worker submits two successors of its task: the second takes the place of the first. -/
theorem first_successor_lost : ∃ s, Path State.step (fun _ _ => True) start
      (register 0 ++ submit 1 ++ fetch 2 1 1 ++ finish 3 1 1 ++ succeed 4 1 1 ++
        succeed 5 1 1) s ∧ s.quiescent = true ∧ ¬s.infra.db.PendingChain := by
  have hrun : (Path.follow State.step (fun _ _ => true) start (register 0 ++ submit 1 ++
      fetch 2 1 1 ++ finish 3 1 1 ++ succeed 4 1 1 ++ succeed 5 1 1)).any (fun s =>
        s.quiescent && (s.infra.db.activeTasks.find 2).any (fun task => task.state = .pending) &&
        s.infra.db.activeTasks.rows.all fun e => (s.infra.db.activeTasks.find 2).all fun task =>
          e.2.downstreamTaskUuid ≠ some task.uuid) = true := by decide
  obtain ⟨s, hp, hs⟩ := Path.of_follow_any hrun
  simp only [Bool.and_eq_true, Option.any_eq_true, List.all_eq_true, Option.all_eq_true,
    decide_eq_true_eq] at hs
  obtain ⟨⟨hq, task, hf, hst⟩, hall⟩ := hs
  refine ⟨s, hp.mono fun _ _ _ => trivial, hq, fun h => ?_⟩
  obtain ⟨u, up, hu, -, hd⟩ := h 2 task hf hst
  exact hall (u, up) (Table.mem_rows.2 hu) task hf hd

end Mitosis
