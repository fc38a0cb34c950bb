import Mitosis.Proof.CheckedWorkers
import Mitosis.Proof.Tickets

namespace Mitosis
set_option autoImplicit true

/-- The ids and the uuids of workers that the coordinator has anything of were drawn before. -/
structure Fresh (log : List Event) (s : State) : Prop where
  drawn : ∀ i u, (i, ⟨.newUuid, .ok u⟩) ∈ log → u < s.infra.nextUuid
  uuids : ∀ w worker, s.infra.db.workers.find w = some worker → worker.workerId < s.infra.nextUuid
  known : ∀ i w, (history i log).known w → w < s.infra.db.workerSeq
  beats : ∀ w, .heartbeat w ∈ s.infra.heartbeatChan → w < s.infra.db.workerSeq
  entries : ∀ w, (s.infra.heartbeatQueue.workers.find w).isSome = true → w < s.infra.db.workerSeq

theorem fresh_initial : Fresh [] (State.initial accounts timeout clock) where
  drawn i u h := by cases h
  uuids w worker h := by cases h
  known i w h := by
    rcases h with ⟨_, _, _, _, _, _, h⟩ | ⟨_, _, h⟩ | ⟨_, _, h, -⟩ <;> cases h
  beats w h := by cases h
  entries w h := by cases h

theorem History.known_cons {K : History} (h : known (e :: K) w) : known [e] w ∨ K.known w := by
  rcases h with ⟨uuid, c, tags, labels, time, row, h⟩ | ⟨time, row, h⟩ | ⟨ws, tags, h, hw⟩ <;>
  rcases List.mem_cons.1 h with rfl | h
  · exact .inl (.inl ⟨uuid, c, tags, labels, time, row, .head _⟩)
  · exact .inr (.inl ⟨uuid, c, tags, labels, time, row, h⟩)
  · exact .inl (.inr (.inl ⟨time, row, .head _⟩))
  · exact .inr (.inr (.inl ⟨time, row, h⟩))
  · exact .inl (.inr (.inr ⟨ws, tags, .head _, hw⟩))
  · exact .inr (.inr (.inr ⟨ws, tags, h, hw⟩))

namespace Cmd
variable {s s' : Infra} {fault : Option DbErr}

theorem exec_known {c : Cmd} {r : c.Resp} (h : c.exec fault s = some (r, s')) (hk : s.db.Keyed)
    (hw : History.known [⟨c, r⟩] w) : w < s'.db.workerSeq := by
  rcases hw with ⟨uuid, creator, tags, labels, time, row, hm⟩ | ⟨time, row, hm⟩ | ⟨ws, tags, hm, hw⟩ <;>
  obtain ⟨⟩ := List.mem_singleton.1 hm
  · rcases exec_write h with ⟨_, hr, -⟩ | ⟨_, _, -, hq, hr, rfl⟩
    · cases hr
    · obtain ⟨⟩ := hr
      obtain ⟨⟩ := hq
      exact Nat.lt_succ_self _
  · rcases exec_write h with ⟨_, hr, -⟩ | ⟨_, _, -, hq, hr, rfl⟩
    · cases hr
    · obtain ⟨worker, hf, -, rfl⟩ := Db.updateWorker_ok hq
      exact hk.workers _ worker hf
  · obtain ⟨rfl, ⟨_, -, hr⟩ | ⟨-, hr⟩⟩ := exec_select h
    · cases hr
    · obtain ⟨⟩ := hr
      obtain ⟨⟨w', worker⟩, hm, he⟩ := List.mem_map.1 hw
      obtain ⟨⟩ := he
      exact hk.workers _ worker (Table.mem_rows.1 hm)

theorem exec_heartbeatChan {c : Cmd} {r : c.Resp} (h : c.exec fault s = some (r, s'))
    (hm : op ∈ s'.heartbeatChan) : op ∈ s.heartbeatChan ∨ c = .sendHeartbeat op := by
  cases exec_cases h with
  | sendHeartbeat =>
    rcases List.mem_append.1 hm with hm | hm
    · exact .inl hm
    · obtain rfl := List.mem_singleton.1 hm
      exact .inr rfl
  | _ => exact .inl hm

theorem exec_heartbeatQueue {c : Cmd} {r : c.Resp} (h : c.exec fault s = some (r, s')) :
    s'.heartbeatQueue = s.heartbeatQueue := by
  cases exec_cases h <;> rfl

end Cmd

theorem Write.worker_uuid {q : Write} {r : q.Ret} {db db' : Db} (h : q.run clock db = .ok (r, db'))
    (hf : db'.workers.find w = some worker) :
    (∃ worker', db.workers.find w = some worker' ∧ worker.workerId = worker'.workerId) ∨
      ∃ creatorId tags labels now, q = .insertWorker worker.workerId creatorId tags labels now := by
  have hc := q.workerChange h w
  rw [hf] at hc
  generalize db.workers.find w = row at hc
  cases hc with
  | inserted => exact .inr ⟨_, _, _, _, rfl⟩
  | same => exact .inl ⟨worker, rfl, rfl⟩
  | _ => exact .inl ⟨_, rfl, rfl⟩

namespace Fresh
variable {s s' : State} {hd : Handler}

theorem command {c : Cmd} {r : c.Resp} (h : Fresh log s)
    (hg : Grounded log s) (hc : c.checked (history i log))
    (hx : c.exec fault s.infra = some (r, s'.infra)) : Fresh (log ++ [(i, ⟨c, r⟩)]) s' := by
  have hle := Served.exec_workerSeq hx
  have hue : s.infra.nextUuid ≤ s'.infra.nextUuid := by
    rcases Cmd.exec_uuid hx with ⟨-, he⟩ | ⟨-, he⟩
    · rw [he]
      exact Nat.le_succ _
    · exact Nat.le_of_eq he.symm
  refine ⟨fun j u hm => ?_, fun w worker hf => ?_, fun j w hw => ?_, fun w hm => ?_, fun w hw => ?_⟩
  · rcases List.mem_append.1 hm with hm | hm
    · exact Nat.lt_of_lt_of_le (h.drawn j u hm) hue
    · obtain ⟨⟩ := List.mem_singleton.1 hm
      rcases Cmd.exec_uuid hx with ⟨he, hs⟩ | ⟨hne, -⟩
      · obtain ⟨⟩ := he
        rw [hs]
        exact Nat.lt_succ_self _
      · exact (hne u rfl).elim
  · refine Nat.lt_of_lt_of_le ?_ hue
    cases c with
    | write q =>
      rcases Cmd.exec_write hx with ⟨_, _, hs⟩ | ⟨_, _, -, hq, -, hs⟩ <;>
      rw [hs] at hf
      · exact h.uuids w worker hf
      · rcases Write.worker_uuid hq hf with ⟨worker', hf', he⟩ | ⟨_, _, _, _, rfl⟩
        · rw [he]
          exact h.uuids w worker' hf'
        · exact h.drawn i _ (mem_history.1 hc)
    | _ =>
      rw [Cmd.exec_db hx fun _ => nofun] at hf
      exact h.uuids w worker hf
  · by_cases hj : j = i
    · subst hj
      rw [history_concat_self] at hw
      rcases History.known_cons hw with hw | hw
      · exact Cmd.exec_known hx hg.keyed hw
      · exact Nat.lt_of_lt_of_le (h.known j w hw) hle
    · rw [history_concat_ne (Ne.symm hj)] at hw
      exact Nat.lt_of_lt_of_le (h.known j w hw) hle
  · refine Nat.lt_of_lt_of_le ?_ hle
    rcases Cmd.exec_heartbeatChan hx hm with hm | rfl
    · exact h.beats w hm
    · exact h.known i w hc
  · rw [Cmd.exec_heartbeatQueue hx] at hw
    exact Nat.lt_of_lt_of_le (h.entries w hw) hle

/-- A step that issues no command and adds nothing to the queue of heartbeats. -/
theorem silent (h : Fresh log s) (hn : s'.infra.nextUuid = s.infra.nextUuid)
    (hw : s'.infra.db.workers = s.infra.db.workers)
    (hs : s'.infra.db.workerSeq = s.infra.db.workerSeq)
    (hb : s'.infra.heartbeatChan ⊆ s.infra.heartbeatChan)
    (hq : ∀ w, (s'.infra.heartbeatQueue.workers.find w).isSome = true →
      w < s.infra.db.workerSeq) : Fresh log s' where
  drawn := by
    rw [hn]
    exact h.drawn
  uuids := by
    rw [hw, hn]
    exact h.uuids
  known := by
    rw [hs]
    exact h.known
  beats w hm := by
    rw [hs]
    exact h.beats w (hb hm)
  entries := by
    rw [hs]
    exact hq

theorem recvHeartbeat {infra : Infra} (h : Fresh log s)
    (hb : s.infra.recvHeartbeat = some infra) : Fresh log ⟨infra, s.pool⟩ := by
  unfold Infra.recvHeartbeat at hb
  split at hb
  next => cases hb
  next op ops hops =>
    have hsub : ops ⊆ s.infra.heartbeatChan := by
      rw [hops]
      exact List.subset_cons_self _ _
    split at hb
    next =>
      obtain ⟨⟩ := hb
      refine h.silent rfl rfl rfl hsub fun w hw => ?_
      cases op with
      | unregisterWorker w' =>
        simp only [HeartbeatQueue.handleOp, HeartbeatQueue.unregisterWorker, Table.find_erase] at hw
        split at hw
        next => cases hw
        next => exact h.entries w hw
      | heartbeat w' =>
        simp only [HeartbeatQueue.handleOp, HeartbeatQueue.heartbeat, Table.find_set] at hw
        split at hw
        next he =>
          subst he
          apply h.beats w
          rw [hops]
          exact .head _
        next => exact h.entries w hw
    next => cases hb

theorem step (h : Fresh log s) (hg : Grounded log s)
    (hk : Informed (fun _ => Cmd.checked) (fun _ _ _ => True) log s)
    (hs : s.step a = some s') : Fresh (log ++ (s.event a).toList) s' := by
  cases State.step_cases hs with
  | call | abortTimeout =>
    change Fresh (log ++ []) _
    rw [List.append_nil]
    exact h.silent rfl rfl rfl (List.Subset.refl _) h.entries
  | timeout hb =>
    change Fresh (log ++ []) _
    rw [List.append_nil]
    obtain ⟨_, -, -, rfl⟩ := Infra.popExpired_some hb
    refine h.silent rfl rfl rfl (List.Subset.refl _) fun w hw => h.entries w ?_
    simp only [HeartbeatQueue.unregisterWorker, Table.find_erase] at hw
    split at hw
    next => cases hw
    next => exact hw
  | background hb =>
    have he : s.event a = none := by cases hb <;> rfl
    rw [he, Option.toList_none, List.append_nil]
    cases hb with
    | dispatch hb =>
      obtain ⟨_, _, _, _, _, _, rfl⟩ := Infra.dispatch_some hb
      exact h.silent rfl rfl rfl (List.Subset.refl _) h.entries
    | recvHeartbeat hb =>
      exact h.recvHeartbeat hb
    | stopHeartbeatQueue => exact h.silent rfl rfl rfl (List.nil_subset _) h.entries
    | accounts | tick | cancel | stopDispatcher =>
      exact h.silent rfl rfl rfl (List.Subset.refl _) h.entries
  | @step i hd fault infra c k r hi hp hx =>
    rw [(State.event_step hi hp hx).2, Option.toList_some]
    have hc := hk.knows i hd hi
    rw [hp] at hc
    exact h.command hg hc.1 hx

end Fresh

theorem fresh_of_path {s : State}
    (hp : Path State.step ok (State.initial accounts timeout clock) as s) :
    Fresh ((State.initial accounts timeout clock).log as) s := by
  induction hp with
  | nil => exact fresh_initial
  | snoc hp _ hs ih =>
    rw [State.log_snoc hp hs]
    exact ih.step (grounded_of_path hp) (checked_of_path hp) hs

end Mitosis
