import Mitosis.Proof.Histories
import Mitosis.Proof.Keys

namespace Mitosis
set_option autoImplicit true

def Cmd.shows : (c : Cmd) → c.Resp → Option (TaskId × Origin)
  | .select (.task t), .ok (some task) => some (t, task.origin)
  | .select (.pendingTask _), .ok (some row) => some (row.1, row.2.origin)
  | .write (.assignTask _ t _), .ok (some task) => some (t, task.origin)
  | .write (.insertTask _), .ok row => some (row.1, row.2.origin)
  | _, _ => none

def Cmd.answers : (c : Cmd) → c.Resp → Prop
  | .select (.pendingTask uuid), .ok (some row) => row.2.uuid = uuid ∧ row.2.state = .pending
  | .write (.insertTask task), .ok row => row.2 = task
  | _, _ => True

namespace Cmd
variable {s s' : Infra} {fault : Option DbErr}

theorem exec_answers {c : Cmd} {r : c.Resp} (h : c.exec fault s = some (r, s')) :
    c.answers r := by
  unfold answers
  split
  next uuid row =>
    obtain ⟨-, ⟨_, -, hr⟩ | ⟨-, hr⟩⟩ := exec_select h
    · cases hr
    · exact (Db.findPendingTask_some (Except.ok.inj hr).symm).2
  next task row =>
    rcases exec_write h with ⟨_, hr, -⟩ | ⟨_, _, -, hq, hr, -⟩
    · cases hr
    · obtain ⟨⟩ := hr
      rw [(Db.insertTask_ok hq).2.1]
  next => trivial

theorem exec_shows {c : Cmd} {r : c.Resp} (h : c.exec fault s = some (r, s'))
    (hs : c.shows r = some (t, o)) : s'.db.origin t = some o := by
  unfold shows at hs
  split at hs
  next task =>
    obtain ⟨⟩ := hs
    obtain ⟨rfl, ⟨_, -, hr⟩ | ⟨-, hr⟩⟩ := exec_select h
    · cases hr
    · exact Db.Keyed.origin_active (Except.ok.inj hr).symm
  next uuid row =>
    obtain ⟨⟩ := hs
    obtain ⟨rfl, ⟨_, -, hr⟩ | ⟨-, hr⟩⟩ := exec_select h
    · cases hr
    · exact Db.Keyed.origin_active (Db.findPendingTask_some (Except.ok.inj hr).symm).1
  next w now task =>
    obtain ⟨⟩ := hs
    rcases exec_write h with ⟨_, hr, -⟩ | ⟨_, _, -, hq, hr, rfl⟩
    · cases hr
    · obtain ⟨⟩ := hr
      rcases Db.assignTask_ok hq with ⟨hn, -, -⟩ | ⟨task', hf, -, -, hr, rfl⟩
      · cases hn
      · obtain ⟨⟩ := hr
        refine Db.Keyed.origin_active ?_
        simp only [Table.find_update_self, hf, Option.map_some]
  next task row =>
    obtain ⟨⟩ := hs
    rcases exec_write h with ⟨_, hr, -⟩ | ⟨_, _, -, hq, hr, rfl⟩
    · cases hr
    · obtain ⟨⟩ := hr
      obtain ⟨-, rfl, rfl⟩ := Db.insertTask_ok hq
      exact Db.Keyed.origin_active (Table.find_set_self _ _ _)
  next => cases hs

theorem exec_uuid {c : Cmd} {r : c.Resp} (h : c.exec fault s = some (r, s')) :
    (⟨c, r⟩ : Entry Cmd Cmd.Resp) = ⟨.newUuid, .ok s.nextUuid⟩ ∧
        s' = { s with nextUuid := s.nextUuid + 1 } ∨
      (∀ u, (⟨c, r⟩ : Entry Cmd Cmd.Resp) ≠ ⟨.newUuid, .ok u⟩) ∧ s'.nextUuid = s.nextUuid := by
  cases exec_cases h with
  | newUuid => exact .inl ⟨rfl, rfl⟩
  | _ => exact .inr ⟨fun _ => nofun, rfl⟩

end Cmd

/-- What a run that the log records has established about the database. -/
structure Grounded (log : List Event) (s : State) : Prop where
  traced : Traced log s
  keyed : s.infra.db.Keyed
  shown : ∀ e ∈ log, ∀ t o, e.2.1.shows e.2.2 = some (t, o) → s.infra.db.origin t = some o
  answered : ∀ e ∈ log, e.2.1.answers e.2.2
  used : ∀ t o, s.infra.db.origin t = some o → o.uuid < s.infra.nextUuid
  drawn : ∀ i u K, history i log = ⟨.newUuid, .ok u⟩ :: K → u < s.infra.nextUuid ∧
    (∀ t o, s.infra.db.origin t = some o → o.uuid ≠ u) ∧
    ∀ j K', history j log = ⟨.newUuid, .ok u⟩ :: K' → j = i

namespace Grounded
variable {s s' : State} {i : Nat} {hd : Handler}

theorem sourced {c : Cmd} {k : c.Resp → HandlerProg} (h : Grounded log s)
    (hi : s.pool[i]? = some hd) (hp : hd.prog = .call c k) :
    c.sourced hd.call (history i log) := by
  have hk := h.traced.knows i hd hi
  rw [hp] at hk
  exact hk.1

theorem saw {c : Cmd} {r : c.Resp} (h : Grounded log s) (he : ⟨c, r⟩ ∈ history i log)
    (hs : c.shows r = some (t, o)) : s.infra.db.origin t = some o :=
  h.shown _ (mem_history.1 he) t o hs

/-- The writes that the handlers issue use what they read before. -/
theorem write_grounded {q : Write} {k : (Cmd.write q).Resp → HandlerProg} (h : Grounded log s)
    (hi : s.pool[i]? = some hd) (hp : hd.prog = .call (.write q) k) :
    q.grounded s.infra.db := by
  have hs := h.sourced hi hp
  cases q with
  | commitTask w t archived now =>
    obtain ⟨_, _, task, _, -, hsaw, -, -, rfl⟩ := hs
    exact h.saw hsaw rfl
  | insertTask task =>
    obtain ⟨⟨K, hK⟩, -⟩ := hs
    exact (h.drawn i _ K hK).2.1
  | _ => trivial

/-- A step that issues no command leaves what is known as it is. -/
theorem silent (h : Grounded log s) (ht : Traced log s') (hdb : s'.infra.db.Keyed)
    (ho : s'.infra.db.origin = s.infra.db.origin)
    (hu : s'.infra.nextUuid = s.infra.nextUuid) : Grounded log s' where
  traced := ht
  keyed := hdb
  shown := by
    rw [ho]
    exact h.shown
  answered := h.answered
  used := by
    rw [ho, hu]
    exact h.used
  drawn := by
    rw [ho, hu]
    exact h.drawn

/-- A command keeps every task findable, and a task that it adds has the uuid that the
handler drew. -/
theorem command_origin {infra : Infra} {c : Cmd} {k : c.Resp → HandlerProg} {r : c.Resp}
    (h : Grounded log s) (hi : s.pool[i]? = some hd) (hp : hd.prog = .call c k)
    (hx : c.exec fault s.infra = some (r, infra)) : infra.db.Keyed ∧
      (∀ t o, s.infra.db.origin t = some o → infra.db.origin t = some o) ∧
      ∀ t o, infra.db.origin t = some o → s.infra.db.origin t = some o ∨
        ∃ K, history i log = ⟨.newUuid, .ok o.uuid⟩ :: K := by
  have hsame (hdb : infra.db = s.infra.db) : infra.db.Keyed ∧
      (∀ t o, s.infra.db.origin t = some o → infra.db.origin t = some o) ∧
      ∀ t o, infra.db.origin t = some o → s.infra.db.origin t = some o ∨
        ∃ K, history i log = ⟨.newUuid, .ok o.uuid⟩ :: K := by
    rw [hdb]
    exact ⟨h.keyed, fun _ _ ho => ho, fun _ _ ho => .inl ho⟩
  cases c with
  | write q =>
    rcases Cmd.exec_write hx with ⟨_, _, rfl⟩ | ⟨a, db, _, hq, _, rfl⟩
    · exact hsame rfl
    · have hg := h.write_grounded hi hp
      refine ⟨h.keyed.write hq hg, fun t o => h.keyed.origin_write hq hg, fun t o ho => ?_⟩
      rcases h.keyed.origin_new hq hg ho with ho | ⟨task, rfl, -, rfl⟩
      · exact .inl ho
      · exact .inr (h.sourced hi hp).1
  | _ => exact hsame (Cmd.exec_db hx fun _ => nofun)

theorem command {c : Cmd} {k : c.Resp → HandlerProg} {r : c.Resp} (h : Grounded log s)
    (hi : s.pool[i]? = some hd) (hp : hd.prog = .call c k)
    (hx : c.exec fault s.infra = some (r, s'.infra))
    (ht : Traced (log ++ [(i, ⟨c, r⟩)]) s') : Grounded (log ++ [(i, ⟨c, r⟩)]) s' := by
  obtain ⟨hkeyed, hold, hnew⟩ := h.command_origin hi hp hx
  have hle : s.infra.nextUuid ≤ s'.infra.nextUuid := by
    rcases Cmd.exec_uuid hx with ⟨-, he⟩ | ⟨-, he⟩
    · rw [he]
      exact Nat.le_succ _
    · exact Nat.le_of_eq he.symm
  refine ⟨ht, hkeyed, ?_, ?_, fun t o ho => Nat.lt_of_lt_of_le ?_ hle, fun j u K hj => ?_⟩
  · intro e he t o hs
    rcases List.mem_append.1 he with he | he
    · exact hold t o (h.shown e he t o hs)
    · obtain rfl := List.mem_singleton.1 he
      exact Cmd.exec_shows hx hs
  · intro e he
    rcases List.mem_append.1 he with he | he
    · exact h.answered e he
    · obtain rfl := List.mem_singleton.1 he
      exact Cmd.exec_answers hx
  · rcases hnew t o ho with ho | ⟨K, hK⟩
    · exact h.used t o ho
    · exact (h.drawn i _ K hK).1
  by_cases hji : j = i
  · subst hji
    rw [history_concat_self] at hj
    obtain ⟨he, -⟩ := List.cons.inj hj
    rcases Cmd.exec_uuid hx with ⟨he', hinfra⟩ | ⟨hne, -⟩
    · obtain ⟨⟩ := he.symm.trans he'
      rw [hinfra]
      refine ⟨Nat.lt_succ_self _, fun t o ho => Nat.ne_of_lt (h.used t o ho), fun j' K' hj' => ?_⟩
      by_contra hne
      rw [history_concat_ne (Ne.symm hne)] at hj'
      exact Nat.lt_irrefl _ (h.drawn j' _ K' hj').1
    · exact (hne u he).elim
  · rw [history_concat_ne (Ne.symm hji)] at hj
    obtain ⟨hu, hfresh, huniq⟩ := h.drawn j u K hj
    refine ⟨Nat.lt_of_lt_of_le hu hle, fun t o ho => ?_, fun j' K' hj' => ?_⟩
    · rcases hnew t o ho with ho | ⟨K', hK'⟩
      · exact hfresh t o ho
      · rintro rfl
        exact hji (huniq i K' hK').symm
    · by_cases hj'i : j' = i
      · subst hj'i
        rw [history_concat_self] at hj'
        obtain ⟨he, -⟩ := List.cons.inj hj'
        rcases Cmd.exec_uuid hx with ⟨he', -⟩ | ⟨hne, -⟩
        · obtain ⟨⟩ := he.symm.trans he'
          exact (Nat.lt_irrefl _ hu).elim
        · exact (hne u he).elim
      · rw [history_concat_ne (Ne.symm hj'i)] at hj'
        exact huniq j' K' hj'

theorem step (h : Grounded log s) (hs : s.step a = some s') :
    Grounded (log ++ (s.event a).toList) s' := by
  have ht := h.traced.step hs
  have hquiet (he : s.event a = none) (hdb : s'.infra.db.Keyed)
      (ho : s'.infra.db.origin = s.infra.db.origin)
      (hu : s'.infra.nextUuid = s.infra.nextUuid) :
      Grounded (log ++ (s.event a).toList) s' := by
    rw [he, Option.toList_none, List.append_nil] at ht ⊢
    exact h.silent ht hdb ho hu
  cases State.step_cases hs with
  | call | abortTimeout => exact hquiet rfl h.keyed rfl rfl
  | background hb =>
    cases hb with
    | dispatch hb =>
      obtain ⟨_, _, _, _, _, _, rfl⟩ := Infra.dispatch_some hb
      exact hquiet rfl h.keyed rfl rfl
    | recvHeartbeat hb =>
      obtain ⟨_, _, rfl⟩ := Infra.recvHeartbeat_some hb
      exact hquiet rfl h.keyed rfl rfl
    | accounts =>
      exact hquiet rfl ⟨h.keyed.tasks, h.keyed.disjoint, h.keyed.uuids, h.keyed.workers,
        h.keyed.roles⟩ rfl rfl
    | tick | cancel | stopDispatcher | stopHeartbeatQueue => exact hquiet rfl h.keyed rfl rfl
  | timeout hb =>
    obtain ⟨-, -, -, rfl⟩ := Infra.popExpired_some hb
    exact hquiet rfl h.keyed rfl rfl
  | @step i hd fault infra c k r hi hp hx =>
    rw [(State.event_step hi hp hx).2, Option.toList_some] at ht ⊢
    exact h.command hi hp hx ht

end Grounded

theorem keyed_initial : (State.initial accounts timeout clock).infra.db.Keyed where
  tasks t h := by cases h
  disjoint t task h := by cases h
  uuids t t' o o' h := by cases h
  workers w worker h := by cases h
  roles g w role h := by cases h

theorem grounded_initial : Grounded [] (State.initial accounts timeout clock) where
  traced := by
    refine ⟨fun e h => ?_, fun i h hi => ?_⟩
    · cases h
    · cases hi
  keyed := keyed_initial
  shown e h := by cases h
  answered e h := by cases h
  used t o h := by cases h
  drawn i u K h := by cases h

theorem grounded_of_path {s : State}
    (hp : Path State.step ok (State.initial accounts timeout clock) as s) :
    Grounded ((State.initial accounts timeout clock).log as) s := by
  induction hp with
  | nil => exact grounded_initial
  | snoc hp _ hs ih =>
    rw [State.log_snoc hp hs]
    exact ih.step hs

end Mitosis
