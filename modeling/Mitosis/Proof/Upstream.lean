import Mitosis.Proof.Started

namespace Mitosis
set_option autoImplicit true

/-- The task with the uuid `next` was submitted as the successor of the task `uuid`. -/
def Db.follows (db : Db) (uuid next : Uuid) : Prop :=
  ∃ t o, db.origin t = some o ∧ o.uuid = next ∧ o.upstreamTaskUuid = some uuid

theorem Db.follows.mono {db db' : Db} (h : db.follows uuid next)
    (hold : ∀ t o, db.origin t = some o → db'.origin t = some o) : db'.follows uuid next := by
  obtain ⟨t, o, ho, h⟩ := h
  exact ⟨t, o, hold t o ho, h⟩

def Db.reported (db : Db) (t : TaskId) (uuid : Uuid) : Prop :=
  ∃ row, db.archivedTasks.find t = some row ∧ row.uuid = uuid ∧ row.reporterUuid.isSome = true

/-- Handler `i` committed the task, as the archived row says. -/
def Committed (log : List Event) (i : Nat) (t : TaskId) (archived : ArchivedTask) : Prop :=
  ∃ w time st, (i, ⟨.write (.commitTask w t archived time), .ok st⟩) ∈ log

/-- Handler `i` made a pending task ready. -/
def Triggered (log : List Event) (i : Nat) (t : TaskId) : Prop :=
  ∃ time row, (i, ⟨.write (.triggerTask t time), .ok row⟩) ∈ log

/-- The successor of a task stays known, and leaves Pending only after a handler committed the
task. -/
structure Chained (log : List Event) (db : Db) : Prop where
  linked : ∀ t task next, db.activeTasks.find t = some task →
    task.downstreamTaskUuid = some next → db.follows task.uuid next
  seen : ∀ i t task next, (i, ⟨.select (.task t), .ok (some task)⟩) ∈ log →
    task.downstreamTaskUuid = some next → db.follows task.uuid next
  committed : ∀ i t archived, Committed log i t archived → db.reported t archived.uuid ∧
    ∀ next, archived.downstreamTaskUuid = some next → db.follows archived.uuid next
  once : ∀ i j t archived archived', Committed log i t archived → Committed log j t archived' →
    i = j
  triggered : ∀ i t, Triggered log i t → ∃ o u archived, db.origin t = some o ∧
    Committed log i u archived ∧ archived.downstreamTaskUuid = some o.uuid
  moved : ∀ t task, db.activeTasks.find t = some task → task.upstreamTaskUuid ≠ none →
    task.state ≠ .pending → ∃ i, Triggered log i t

theorem chained_initial : Chained [] (State.initial accounts timeout clock).infra.db where
  linked t task next h := by cases h
  seen i t task next h := by cases h
  committed i t archived h := by obtain ⟨_, _, _, h⟩ := h; cases h
  once i j t archived archived' h := by obtain ⟨_, _, _, h⟩ := h; cases h
  triggered i t h := by obtain ⟨_, _, h⟩ := h; cases h
  moved t task h := by cases h

theorem committed_concat : Committed (log ++ [(i, e)]) j t archived ↔ Committed log j t archived ∨
    i = j ∧ ∃ w time st, e = ⟨.write (.commitTask w t archived time), .ok st⟩ := by
  simp only [Committed, List.mem_append, List.mem_singleton, Prod.mk.injEq, exists_or]
  exact or_congr_right ⟨fun ⟨w, time, st, hi, he⟩ => ⟨hi.symm, w, time, st, he.symm⟩,
    fun ⟨hi, w, time, st, he⟩ => ⟨w, time, st, hi.symm, he.symm⟩⟩

theorem triggered_concat : Triggered (log ++ [(i, e)]) j t ↔ Triggered log j t ∨
    i = j ∧ ∃ time row, e = ⟨.write (.triggerTask t time), .ok row⟩ := by
  simp only [Triggered, List.mem_append, List.mem_singleton, Prod.mk.injEq, exists_or]
  exact or_congr_right ⟨fun ⟨time, row, hi, he⟩ => ⟨hi.symm, time, row, he.symm⟩,
    fun ⟨hi, time, row, he⟩ => ⟨time, row, hi.symm, he.symm⟩⟩

namespace Chained
variable {s : State} {infra : Infra}

theorem quiet {c : Cmd} {r : c.Resp} (h : Chained log s.infra.db)
    (hx : c.exec fault s.infra = some (r, infra)) (hdb : infra.db = s.infra.db)
    (hc : ∀ q a, (⟨c, r⟩ : Entry Cmd Cmd.Resp) ≠ ⟨.write q, .ok a⟩) :
    Chained (log ++ [(i, ⟨c, r⟩)]) infra.db := by
  rw [hdb]
  have hcom : ∀ j t archived, Committed (log ++ [(i, ⟨c, r⟩)]) j t archived →
      Committed log j t archived := by
    intro j t archived hm
    rcases committed_concat.1 hm with hm | ⟨-, w, time, st, he⟩
    · exact hm
    · exact (hc _ _ he).elim
  have htrig : ∀ j t, Triggered (log ++ [(i, ⟨c, r⟩)]) j t → Triggered log j t := by
    intro j t hm
    rcases triggered_concat.1 hm with hm | ⟨-, time, row, he⟩
    · exact hm
    · exact (hc _ _ he).elim
  refine ⟨h.linked, fun j t task next hm hn => ?_, fun j t archived hm =>
    h.committed j t archived (hcom _ _ _ hm), fun j j' t archived archived' hm hm' =>
    h.once j j' t archived archived' (hcom _ _ _ hm) (hcom _ _ _ hm'), fun j t hm => ?_,
    fun t task hf hu hst => ?_⟩
  · rcases List.mem_append.1 hm with hm | hm
    · exact h.seen j t task next hm hn
    · obtain ⟨⟩ := List.mem_singleton.1 hm
      obtain ⟨-, ⟨_, -, hr⟩ | ⟨-, hr⟩⟩ := Cmd.exec_select hx
      · cases hr
      · exact h.linked t task next (Except.ok.inj hr).symm hn
  · obtain ⟨o, u, archived, ho, hu, hd⟩ := h.triggered j t (htrig j t hm)
    exact ⟨o, u, archived, ho, committed_concat.2 (.inl hu), hd⟩
  · obtain ⟨j, hj⟩ := h.moved t task hf hu hst
    exact ⟨j, triggered_concat.2 (.inl hj)⟩

section
variable {q : Write} {r : q.Ret} {k : (Cmd.write q).Resp → HandlerProg} {hd : Handler} {db' : Db} {i : Nat}

/-- Only the report of a submission links a task to its successor. -/
theorem linked_write (h : Chained log s.infra.db) (hg : Grounded log s)
    (hi : s.pool[i]? = some hd) (hp : hd.prog = .call (.write q) k)
    (hq : q.run s.infra.clock s.infra.db = .ok (r, db'))
    (hold : ∀ t o, s.infra.db.origin t = some o → db'.origin t = some o)
    (hf' : db'.activeTasks.find t = some task') (hn : task'.downstreamTaskUuid = some next) :
    db'.follows task'.uuid next := by
  have hc := q.taskChange hq t
  rw [hf'] at hc
  generalize hrow : s.infra.db.activeTasks.find t = row at hc
  cases hc with
  | same => exact (h.linked t _ next hrow hn).mono hold
  | inserted =>
    rw [(hg.sourced hi hp).2.2.1] at hn
    cases hn
  | linked =>
    obtain ⟨⟩ := hn
    obtain ⟨_, _, seen, p, row, -, hsaw, -, hins, rfl, hup, -⟩ := hg.sourced hi hp
    have hr := hg.answered _ (mem_history.1 hins)
    have ho := hg.saw hins rfl
    have ht := (hg.saw hsaw rfl).symm.trans (Db.Keyed.origin_active hrow)
    refine ⟨row.1, _, hold _ _ ho, rfl, ?_⟩
    have hu := congrArg Origin.uuid (Option.some.inj ht)
    rw [show row.2 = p from hr]
    exact hup.trans (congrArg some hu)
  | assigned | reported | pushedBack | shutByFilter | shutByUuids | triggered | changed
    | touched =>
    have hl := (h.linked t _ next hrow hn).mono hold
    exact hl

theorem reported_write (hq : q.run clock db = .ok (r, db')) (h : db.reported t uuid) :
    db'.reported t uuid := by
  obtain ⟨row, hf, h⟩ := h
  have hc := q.archivedChange hq t
  rw [hf] at hc
  generalize hrow : db'.archivedTasks.find t = row' at hc
  cases hc with
  | same => exact ⟨_, hrow, h⟩
  | touched => exact ⟨_, hrow, h⟩

theorem committed_write (h : Chained log s.infra.db) (hg : Grounded log s)
    (hi : s.pool[i]? = some hd) (hp : hd.prog = .call (.write q) k)
    (hq : q.run s.infra.clock s.infra.db = .ok (r, db'))
    (hold : ∀ t o, s.infra.db.origin t = some o → db'.origin t = some o)
    (hm : Committed (log ++ [(i, ⟨.write q, .ok r⟩)]) j t archived) :
    db'.reported t archived.uuid ∧
      ∀ next, archived.downstreamTaskUuid = some next → db'.follows archived.uuid next := by
  rcases committed_concat.1 hm with hm | ⟨-, w, time, st, he⟩
  · obtain ⟨hr, hf⟩ := h.committed j t archived hm
    exact ⟨reported_write hq hr, fun next hn => (hf next hn).mono hold⟩
  · obtain ⟨⟩ := he
    obtain ⟨wu, res, task, time, -, hsaw, -, -, rfl⟩ := hg.sourced hi hp
    refine ⟨⟨_, ?_, rfl, rfl⟩, fun next hn => ?_⟩
    · obtain ⟨-, _, -, -, ⟨-, rfl⟩ | ⟨-, rfl⟩⟩ := Db.commitTask_ok hq <;>
      exact Table.find_set_self _ _ _
    · exact (h.seen i t task next (mem_history.1 hsaw) hn).mono hold

theorem once_write (h : Chained log s.infra.db)
    (hq : q.run s.infra.clock s.infra.db = .ok (r, db'))
    (hm : Committed (log ++ [(i, ⟨.write q, .ok r⟩)]) j t archived)
    (hm' : Committed (log ++ [(i, ⟨.write q, .ok r⟩)]) j' t archived') : j = j' := by
  have hnew {archived w time st} (he : (⟨.write q, .ok r⟩ : Entry Cmd Cmd.Resp) =
      ⟨.write (.commitTask w t archived time), .ok st⟩) {j archived'}
      (hc : Committed log j t archived') : False := by
    obtain ⟨⟩ := he
    obtain ⟨⟨row, hf, -⟩, -⟩ := h.committed j t _ hc
    rw [Db.archiveConflict_find (Db.commitTask_ok hq).1] at hf
    cases hf
  rcases committed_concat.1 hm with hm | ⟨hi, w, time, st, he⟩
  · rcases committed_concat.1 hm' with hm' | ⟨hi', w', time', st', he'⟩
    · exact h.once j j' t _ _ hm hm'
    · exact (hnew he' hm).elim
  · rcases committed_concat.1 hm' with hm' | ⟨hi', w', time', st', he'⟩
    · exact (hnew he hm').elim
    · exact hi.symm.trans hi'

theorem triggered_write (h : Chained log s.infra.db) (hg : Grounded log s) (hs : Served log s)
    (hi : s.pool[i]? = some hd) (hp : hd.prog = .call (.write q) k)
    (hold : ∀ t o, s.infra.db.origin t = some o → db'.origin t = some o)
    (hm : Triggered (log ++ [(i, ⟨.write q, .ok r⟩)]) j t) : ∃ o u archived,
      db'.origin t = some o ∧ Committed (log ++ [(i, ⟨.write q, .ok r⟩)]) j u archived ∧
      archived.downstreamTaskUuid = some o.uuid := by
  rcases triggered_concat.1 hm with hm | ⟨rfl, time, row, he⟩
  · obtain ⟨o, u, archived, ho, hu, hd⟩ := h.triggered j t hm
    exact ⟨o, u, archived, hold _ _ ho, committed_concat.2 (.inl hu), hd⟩
  · obtain ⟨⟩ := he
    obtain ⟨uuid, task, hfound, hc | ⟨w, u, archived, time, st, hu, hd⟩, -⟩ := hg.sourced hi hp
    · rcases hs.calls i hd hi with hr | ⟨_, hr⟩ <;> rw [hc] at hr <;> cases hr
    · have hans := hg.answered _ (mem_history.1 hfound)
      refine ⟨_, u, archived, hold _ _ (hg.saw hfound rfl), committed_concat.2 (.inl ?_), ?_⟩
      · exact ⟨w, time, st, mem_history.1 hu⟩
      · rw [hd, ← hans.1]
        rfl

theorem moved_write (h : Chained log s.infra.db) (hg : Grounded log s)
    (hst : Started log s.infra.db) (hi : s.pool[i]? = some hd)
    (hp : hd.prog = .call (.write q) k) (hq : q.run s.infra.clock s.infra.db = .ok (r, db'))
    (hf' : db'.activeTasks.find t = some task') (hu : task'.upstreamTaskUuid ≠ none)
    (hne : task'.state ≠ .pending) :
    ∃ j, Triggered (log ++ [(i, ⟨.write q, .ok r⟩)]) j t := by
  have hc := q.taskChange hq t
  rw [hf'] at hc
  have hold {task} (hf : s.infra.db.activeTasks.find t = some task)
      (hu : task.upstreamTaskUuid ≠ none) (hne : task.state ≠ .pending) :
      ∃ j, Triggered (log ++ [(i, ⟨.write q, .ok r⟩)]) j t := by
    obtain ⟨j, hj⟩ := h.moved t task hf hu hne
    exact ⟨j, triggered_concat.2 (.inl hj)⟩
  generalize hrow : s.infra.db.activeTasks.find t = row at hc
  cases hc with
  | same => exact hold hrow hu hne
  | inserted =>
    obtain ⟨-, -, -, ⟨-, hn⟩ | ⟨hpend, -⟩⟩ := hg.sourced hi hp
    · exact (hu hn).elim
    · exact (hne hpend).elim
  | assigned _ hs | changed hs => exact hold hrow hu (by rw [hs]; exact nofun)
  | reported =>
    obtain ⟨_, _, task, -, -, hsaw, ha⟩ := hg.sourced hi hp
    refine hold hrow hu ((hst.shown _ (mem_history.1 hsaw) t ?_).2 _ hrow)
    simp only [Cmd.showsTaken, ha, Option.map_some]
  | pushedBack =>
    obtain ⟨worker, hsaw, ha⟩ := hg.sourced hi hp
    exact hold hrow hu ((hst.sawWorker hsaw ha).2 _ hrow)
  | shutByFilter _ ha =>
    refine hold hrow hu fun hpend => ?_
    rw [hst.unassigned t _ hrow hpend] at ha
    cases ha
  | shutByUuids hm ha =>
    exact hold hrow hu ((hst.recorded _ _ t (Db.administeredWorkers_find hm) ha).2 _ hrow)
  | triggered => exact ⟨i, triggered_concat.2 (.inr ⟨rfl, _, r, rfl⟩)⟩
  | linked | touched =>
    have hn := hold hrow hu hne
    exact hn

theorem write (h : Chained log s.infra.db) (hg : Grounded log s) (hs : Served log s)
    (hst : Started log s.infra.db) (hi : s.pool[i]? = some hd)
    (hp : hd.prog = .call (.write q) k) (hq : q.run s.infra.clock s.infra.db = .ok (r, db'))
    (hold : ∀ t o, s.infra.db.origin t = some o → db'.origin t = some o) :
    Chained (log ++ [(i, ⟨.write q, .ok r⟩)]) db' where
  linked _ _ _ hf hn := h.linked_write hg hi hp hq hold hf hn
  seen j t task next hm hn := by
    rcases List.mem_append.1 hm with hm | hm
    · exact (h.seen j t task next hm hn).mono hold
    · cases List.mem_singleton.1 hm
  committed _ _ _ hm := h.committed_write hg hi hp hq hold hm
  once _ _ _ _ _ hm hm' := h.once_write hq hm hm'
  triggered _ _ hm := h.triggered_write hg hs hi hp hold hm
  moved _ _ hf hu hne := h.moved_write hg hst hi hp hq hf hu hne

end

end Chained

theorem chained_of_path {s : State}
    (hp : Path State.step ok (State.initial accounts timeout clock) as s) :
    Chained ((State.initial accounts timeout clock).log as) s.infra.db := by
  refine log_invariant hp chained_initial (fun _ _ _ h =>
    ⟨h.linked, h.seen, h.committed, h.once, h.triggered, h.moved⟩) ?_
  intro as s i hd c k r fault infra hp h hi hprog hx
  have hg := grounded_of_path hp
  cases c with
  | write q =>
    have hold := (hg.command_origin hi hprog hx).2.1
    rcases Cmd.exec_write hx with ⟨_, rfl, rfl⟩ | ⟨a, db, -, hq, rfl, rfl⟩
    · exact h.quiet hx rfl fun _ _ => nofun
    · exact h.write hg (served_of_path hp) (started_of_path hp) hi hprog hq hold
  | _ => exact h.quiet hx (Cmd.exec_db hx fun _ => nofun) fun _ _ => nofun

theorem trigger_pending {s : State} {hd : Handler} {i : Nat}
    {k : (Cmd.write (.triggerTask t time)).Resp → HandlerProg}
    (hp : Path State.step ok (State.initial accounts timeout clock) as s)
    (hi : s.pool[i]? = some hd) (hprog : hd.prog = .call (.write (.triggerTask t time)) k)
    (hf : s.infra.db.activeTasks.find t = some task) : task.state = .pending ∧
      ∃ u up, s.infra.db.reported u up ∧ task.upstreamTaskUuid = some up := by
  have hg := grounded_of_path hp
  have hs := served_of_path hp
  have hc := chained_of_path hp
  obtain ⟨uuid, row, hfound, hcall | ⟨w, u, archived, time', st, hu, hdown⟩, hn⟩ :=
    hg.sourced hi hprog
  · rcases hs.calls i hd hi with hr | ⟨_, hr⟩ <;> rw [hcall] at hr <;> cases hr
  have ho : task.origin = row.origin := Option.some.inj
    ((Db.Keyed.origin_active hf).symm.trans (hg.saw hfound rfl))
  have huuid : task.origin.uuid = uuid := by
    rw [ho]
    exact (hg.answered _ (mem_history.1 hfound)).1
  have hcom : Committed ((State.initial accounts timeout clock).log as) i u archived :=
    ⟨w, time', st, mem_history.1 hu⟩
  have hup {i u archived} (hcom : Committed ((State.initial accounts timeout clock).log as) i u
      archived) (hdown : archived.downstreamTaskUuid = some uuid) :
      task.upstreamTaskUuid = some archived.uuid := by
    obtain ⟨p, o, hp', hu', hup⟩ := (hc.committed i u archived hcom).2 uuid hdown
    obtain rfl := hg.keyed.uuids p t _ _ hp' (Db.Keyed.origin_active hf) (hu'.trans huuid.symm)
    obtain rfl := Option.some.inj (hp'.symm.trans (Db.Keyed.origin_active hf))
    exact hup
  refine ⟨?_, u, archived.uuid, (hc.committed i u archived hcom).1, hup hcom hdown⟩
  by_contra hst
  obtain ⟨j, hj⟩ := hc.moved t task hf (by rw [hup hcom hdown]; exact nofun) hst
  obtain ⟨o, u', archived', ho', hcom', hdown'⟩ := hc.triggered j t hj
  obtain rfl := Option.some.inj (ho'.symm.trans (Db.Keyed.origin_active hf))
  rw [huuid] at hdown'
  have hsame := Option.some.inj ((hup hcom hdown).symm.trans (hup hcom' hdown'))
  obtain ⟨⟨a, ha, hau, -⟩, -⟩ := hc.committed i u archived hcom
  obtain ⟨⟨b, hb, hbu, -⟩, -⟩ := hc.committed j u' archived' hcom'
  obtain rfl := hg.keyed.uuids u u' _ _ (hg.keyed.origin_archived ha)
    (hg.keyed.origin_archived hb) (hau.trans (hsame.trans hbu.symm))
  obtain rfl := hc.once i j u _ _ hcom hcom'
  obtain ⟨_, _, hm⟩ := hj
  exact hn _ _ _ (mem_history.2 hm)

theorem taken_of_path {s : State}
    (hp : Path State.step ok (State.initial accounts timeout clock) as s) : ∀ t task,
      s.infra.db.activeTasks.find t = some task → task.assignedWorker ≠ none →
      task.state.isTaken = true := by
  refine log_invariant (P := fun _ db => ∀ t task, db.activeTasks.find t = some task →
    task.assignedWorker ≠ none → task.state.isTaken = true) hp
    (fun t task h => by cases h) (fun _ _ _ h => h) ?_
  intro as s i hd c k r fault infra hp h hi hprog hx
  cases c with
  | write q =>
    rcases Cmd.exec_write hx with ⟨_, rfl, rfl⟩ | ⟨a, db, -, hq, rfl, rfl⟩
    · exact h
    · intro t task' hf' ha
      have hg := grounded_of_path hp
      have hc := q.taskChange hq t
      rw [hf'] at hc
      generalize hrow : s.infra.db.activeTasks.find t = row at hc
      cases hc with
      | same => exact h t _ hrow ha
      | inserted => exact (ha (hg.sourced hi hprog).2.1).elim
      | assigned => rfl
      | reported =>
        obtain ⟨_, _, _, -, hst, -⟩ := hg.sourced hi hprog
        rcases hst with rfl | rfl <;> rfl
      | pushedBack | shutByFilter | shutByUuids => exact (ha rfl).elim
      | triggered =>
        have hpend := (trigger_pending hp hi hprog hrow).1
        have hn := (started_of_path hp).unassigned t _ hrow hpend
        exact (ha hn).elim
      | linked | changed | touched =>
        have ht := h t _ hrow ha
        exact ht
  | _ =>
    rw [Cmd.exec_db hx fun _ => nofun]
    exact h

end Mitosis
