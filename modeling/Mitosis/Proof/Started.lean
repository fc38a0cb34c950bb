import Mitosis.Proof.Tickets

namespace Mitosis
set_option autoImplicit true

/-- The task is known, and it does not wait for its upstream. -/
def Db.started (db : Db) (t : TaskId) : Prop :=
  t < db.taskSeq ∧ ∀ task, db.activeTasks.find t = some task → task.state ≠ .pending

def Cmd.showsTaken : (c : Cmd) → c.Resp → Option TaskId
  | .select (.task t), .ok (some task) => task.assignedWorker.map fun _ => t
  | .select (.worker _), .ok (some worker) => worker.assignedTaskId
  | .select (.workerByUuid _), .ok (some row) => row.2.assignedTaskId
  | .write (.touchWorker _ _), .ok worker => worker.assignedTaskId
  | .write (.assignTask _ t _), .ok (some _) => some t
  | _, _ => none

/-- No worker has a task that waits for its upstream, or had one when its row was read. -/
structure Started (log : List Event) (db : Db) : Prop where
  unassigned : ∀ t task, db.activeTasks.find t = some task → task.state = .pending →
    task.assignedWorker = none
  recorded : ∀ w worker t, db.workers.find w = some worker → worker.assignedTaskId = some t →
    db.started t
  shown : ∀ e ∈ log, ∀ t, e.2.1.showsTaken e.2.2 = some t → db.started t

theorem started_initial : Started [] (State.initial accounts timeout clock).infra.db where
  unassigned t task h := by cases h
  recorded w worker t h := by cases h
  shown e h := by cases h

namespace Db
variable {db db' : Db}

theorem started_write {q : Write} {r : q.Ret} (hq : q.run clock db = .ok (r, db'))
    (hst : ∀ w st time, q = .reportState w t st time → st ≠ .pending) (h : db.started t) :
    db'.started t := by
  refine ⟨?_, fun task' hf' => ?_⟩
  · rw [(Write.sequences hq).1]
    exact Nat.lt_add_right _ h.1
  have hc := q.taskChange hq t
  rw [hf'] at hc
  generalize hrow : db.activeTasks.find t = row at hc
  cases hc with
  | same => exact h.2 _ hrow
  | inserted ht => exact (Nat.ne_of_lt h.1 ht).elim
  | reported => exact hst _ _ _ rfl
  | assigned | pushedBack | shutByFilter | shutByUuids | triggered => exact nofun
  | linked | changed | touched =>
    have hn := h.2 _ hrow
    exact hn

theorem started_of_active (hk : db.Keyed) (hf : db.activeTasks.find t = some task)
    (hst : task.state ≠ .pending) : db.started t := by
  refine ⟨hk.tasks t (by rw [Keyed.origin_active hf]; rfl), fun task' hf' => ?_⟩
  obtain rfl := Option.some.inj (hf.symm.trans hf')
  exact hst

end Db

namespace Started
variable {s s' : State} {infra infra' : Infra}

theorem exec_started {c : Cmd} {r : c.Resp} (h : Started log infra.db) (hk : infra.db.Keyed)
    (hx : c.exec fault infra = some (r, infra')) (hs : c.showsTaken r = some t) :
    infra'.db.started t := by
  unfold Cmd.showsTaken at hs
  split at hs
  next task =>
    obtain ⟨w, hw, rfl⟩ := Option.map_eq_some_iff.1 hs
    obtain ⟨rfl, ⟨_, -, hr⟩ | ⟨-, hr⟩⟩ := Cmd.exec_select hx
    · cases hr
    · have hf := (Except.ok.inj hr).symm
      refine Db.started_of_active hk hf fun hst => ?_
      rw [h.unassigned _ task hf hst] at hw
      cases hw
  next w worker =>
    obtain ⟨rfl, ⟨_, -, hr⟩ | ⟨-, hr⟩⟩ := Cmd.exec_select hx
    · cases hr
    · exact h.recorded w worker t (Except.ok.inj hr).symm hs
  next uuid row =>
    obtain ⟨rfl, ⟨_, -, hr⟩ | ⟨-, hr⟩⟩ := Cmd.exec_select hx
    · cases hr
    · exact h.recorded _ _ t (Db.findWorkerByUuid_some (Except.ok.inj hr).symm).1 hs
  next w time worker =>
    rcases Cmd.exec_write hx with ⟨_, hr, -⟩ | ⟨_, _, -, hq, hr, rfl⟩
    · cases hr
    · obtain ⟨⟩ := hr
      obtain ⟨worker', hf, rfl, rfl⟩ := Db.updateWorker_ok hq
      exact h.recorded w worker' t hf hs
  next w t' time task =>
    obtain ⟨⟩ := hs
    rcases Cmd.exec_write hx with ⟨_, hr, -⟩ | ⟨_, _, -, hq, hr, rfl⟩
    · cases hr
    · obtain ⟨⟩ := hr
      rcases Db.assignTask_ok hq with ⟨hn, -, -⟩ | ⟨task', hf, -, -, -, rfl⟩
      · cases hn
      · refine ⟨hk.tasks t (by rw [Db.Keyed.origin_active hf]; rfl), fun task' hf' => ?_⟩
        simp only [Table.find_update_self, hf, Option.map_some, Option.some.injEq] at hf'
        rw [← hf']
        intro hpend
        cases hpend
  next => cases hs

theorem report_final {hd : Handler} {w : WorkerId} {i : Nat} {t : TaskId}
    {k : (Cmd.write (.reportState w t st time)).Resp → HandlerProg} (hg : Grounded log s)
    (hi : s.pool[i]? = some hd) (hp : hd.prog = .call (.write (.reportState w t st time)) k) :
    st ≠ .pending := by
  obtain ⟨_, _, _, -, hst, -⟩ := hg.sourced hi hp
  rcases hst with rfl | rfl <;> exact nofun

theorem write {q : Write} {r : q.Ret} {k : (Cmd.write q).Resp → HandlerProg} {hd : Handler}
    (h : Started log s.infra.db) (hg : Grounded log s) (hi : s.pool[i]? = some hd)
    (hp : hd.prog = .call (.write q) k)
    (hx : (Cmd.write q).exec none s.infra = some (.ok r, infra'))
    (hq : q.run s.infra.clock s.infra.db = .ok (r, infra'.db)) :
    Started (log ++ [(i, ⟨.write q, .ok r⟩)]) infra'.db := by
  have hst : ∀ w t st time, q = .reportState w t st time → st ≠ .pending := by
    rintro w t st time rfl
    exact report_final hg hi hp
  have hold : ∀ t, s.infra.db.started t → infra'.db.started t := fun t =>
    Db.started_write hq fun w => hst w t
  refine ⟨fun t task' hf' hpend => ?_, fun w worker t hw ht => ?_, fun e he t hs => ?_⟩
  · have hc := q.taskChange hq t
    rw [hf'] at hc
    generalize hrow : s.infra.db.activeTasks.find t = row at hc
    cases hc with
    | same => exact h.unassigned t _ hrow hpend
    | inserted => exact (hg.sourced hi hp).2.1
    | reported => exact (hst _ _ _ _ rfl hpend).elim
    | assigned | pushedBack | shutByFilter | shutByUuids | triggered => cases hpend
    | linked | changed | touched =>
      have hn := h.unassigned t _ hrow hpend
      exact hn
  · have hc := q.workerChange hq w
    rw [hw] at hc
    generalize hrow : s.infra.db.workers.find w = row at hc
    cases hc with
    | same => exact hold t (h.recorded w _ t hrow ht)
    | inserted | committed => cases ht
    | linked =>
      obtain ⟨⟩ := ht
      obtain ⟨-, -, task, hm⟩ := hg.sourced hi hp
      exact hold t (h.shown _ (mem_history.1 hm) t rfl)
    | retagged | kept =>
      have hn := hold t (h.recorded w _ t hrow ht)
      exact hn
  · rcases List.mem_append.1 he with he | he
    · exact hold t (h.shown e he t hs)
    · obtain rfl := List.mem_singleton.1 he
      exact h.exec_started hg.keyed hx hs

end Started

theorem started_of_path {s : State}
    (hp : Path State.step ok (State.initial accounts timeout clock) as s) :
    Started ((State.initial accounts timeout clock).log as) s.infra.db := by
  refine log_invariant hp started_initial (fun _ _ _ h => ⟨h.unassigned, h.recorded, h.shown⟩) ?_
  intro as s i hd c k r fault infra hp h hi hprog hx
  have hg := grounded_of_path hp
  have hquiet (hdb : infra.db = s.infra.db) :
      Started ((State.initial accounts timeout clock).log as ++ [(i, ⟨c, r⟩)]) infra.db := by
    refine ⟨by rw [hdb]; exact h.unassigned, by rw [hdb]; exact h.recorded, fun e he t hs => ?_⟩
    rcases List.mem_append.1 he with he | he
    · rw [hdb]
      exact h.shown e he t hs
    · obtain rfl := List.mem_singleton.1 he
      exact h.exec_started hg.keyed hx hs
  cases c with
  | write q =>
    rcases Cmd.exec_write hx with ⟨_, _, rfl⟩ | ⟨a, db, rfl, hq, rfl, rfl⟩
    · exact hquiet rfl
    · exact h.write hg hi hprog hx hq
  | _ => exact hquiet (Cmd.exec_db hx fun _ => nofun)

theorem Started.sawWorker (h : Started log db) (hs : (history i log).sawWorker w worker)
    (ht : worker.assignedTaskId = some t) : db.started t := by
  rcases hs with hs | ⟨_, hs⟩ | ⟨_, hs⟩ <;> exact h.shown _ (mem_history.1 hs) t ht

end Mitosis
