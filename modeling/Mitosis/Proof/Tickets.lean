import Mitosis.Proof.Grounded

namespace Mitosis
set_option autoImplicit true

def Ticketed (log : List Event) (w : WorkerId) (rx : Ticket) : Prop :=
  ∃ i, (i, ⟨.sendFetch w, .ok rx⟩) ∈ log

structure Served (log : List Event) (s : State) : Prop where
  calls : ∀ (i : Nat) (h : Handler), s.pool[i]? = some h →
    h.call.isRequest = true ∨ ∃ w, h.call = .timeout w
  drawn : ∀ w rx, Ticketed log w rx → rx < s.infra.nextTicket
  owner : ∀ w w' rx, Ticketed log w rx → Ticketed log w' rx → w = w'
  sent : ∀ w rx, .fetchTask w rx ∈ s.infra.taskChan → Ticketed log w rx
  inserted : ∀ e ∈ log, ∀ uuid c tags labels time w row,
    e.2 = ⟨.write (.insertWorker uuid c tags labels time), .ok (w, row)⟩ → w < s.infra.db.workerSeq
  registers : ∀ w, .registerWorker w ∈ s.infra.taskChan → w < s.infra.db.workerSeq
  queues : ∀ w, (s.infra.dispatcher.workers.find w).isSome = true → w < s.infra.db.workerSeq
  replied : ∀ rx t, s.infra.replies.find rx = some (some t) →
    ∃ w, Ticketed log w rx ∧ w < s.infra.db.workerSeq
  received : ∀ i rx t, (i, ⟨.recvFetch rx, .ok (some t)⟩) ∈ log →
    ∃ w, Ticketed log w rx ∧ w < s.infra.db.workerSeq

theorem served_initial : Served [] (State.initial accounts timeout clock) where
  calls i h hi := by cases hi
  drawn w rx h := by obtain ⟨i, h⟩ := h; cases h
  owner w w' rx h := by obtain ⟨i, h⟩ := h; cases h
  sent w rx h := by cases h
  inserted e h := by cases h
  registers w h := by cases h
  queues w h := by cases h
  replied rx t h := by cases h
  received i rx t h := by cases h

namespace Served
variable {s s' : State}

theorem calls_step (h : Served log s) (hs : s.step a = some s') (i : Nat) (hd : Handler)
    (hi : s'.pool[i]? = some hd) : hd.call.isRequest = true ∨ ∃ w, hd.call = .timeout w := by
  rcases State.step_origin hs hi with hi | ⟨c, hc, -, rfl⟩ | ⟨hd, hd₀, _, rfl⟩ |
    ⟨hd, c, k, r, fault, -, hd₀, hp, -, rfl⟩
  · exact h.calls i hd hi
  · exact hc
  · exact h.calls i hd hd₀
  · rw [Thread.resume_call]
    exact h.calls i hd hd₀

/-- A step that sends nothing, receives nothing and issues no command. -/
theorem silent (h : Served log s) (hcalls : ∀ (i : Nat) (h : Handler), s'.pool[i]? = some h →
      h.call.isRequest = true ∨ ∃ w, h.call = .timeout w)
    (hchan : s'.infra.taskChan ⊆ s.infra.taskChan)
    (hnext : s'.infra.nextTicket = s.infra.nextTicket)
    (hdisp : s'.infra.dispatcher = s.infra.dispatcher)
    (hrep : s'.infra.replies = s.infra.replies)
    (hseq : s'.infra.db.workerSeq = s.infra.db.workerSeq) : Served log s' where
  calls := hcalls
  drawn := by
    rw [hnext]
    exact h.drawn
  owner := h.owner
  sent w rx hm := h.sent w rx (hchan hm)
  inserted := by
    rw [hseq]
    exact h.inserted
  registers w hm := by
    rw [hseq]
    exact h.registers w (hchan hm)
  queues := by
    rw [hseq, hdisp]
    exact h.queues
  replied := by
    rw [hseq, hrep]
    exact h.replied
  received := by
    rw [hseq]
    exact h.received

theorem dispatch {infra : Infra} (h : Served log s) (hd : s.infra.dispatch pick = some infra) :
    Served log ⟨infra, s.pool⟩ := by
  obtain ⟨op, ops, hc, -, -, -, rfl⟩ := Infra.dispatch_some hd
  have hop : op ∈ s.infra.taskChan := by
    rw [hc]
    exact List.mem_cons_self
  have hsub : ops ⊆ s.infra.taskChan := by
    rw [hc]
    exact List.subset_cons_self _ _
  refine ⟨h.calls, h.drawn, h.owner, fun w rx hm => h.sent w rx (hsub hm), h.inserted,
    fun w hm => h.registers w (hsub hm), fun w hw => ?_, fun rx t hr => ?_, h.received⟩
  · rcases TaskDispatcher.find_isSome_handleOp _ _ _ _ _ hw with hw | rfl
    · exact h.queues w hw
    · exact h.registers w hop
  · cases op with
    | fetchTask w tx =>
      simp only [TaskDispatcher.handleOp, if_true, Option.elim_some, Table.find_set] at hr
      split at hr
      next htx =>
        subst htx
        obtain ⟨q, hq, -⟩ := TaskDispatcher.fetchTask_reply _ (Option.some.inj hr)
        exact ⟨w, h.sent w rx hop, h.queues w (by rw [hq]; rfl)⟩
      next => exact h.replied rx t hr
    | _ => exact h.replied rx t hr

theorem ticketed_concat : Ticketed (log ++ [(i, e)]) w rx ↔
    Ticketed log w rx ∨ e = ⟨.sendFetch w, .ok rx⟩ := by
  simp only [Ticketed, List.mem_append, List.mem_singleton, Prod.mk.injEq, exists_or]
  refine or_congr_right ⟨fun ⟨_, _, he⟩ => he.symm, fun he => ⟨i, rfl, he.symm⟩⟩

theorem exec_workerSeq {infra infra' : Infra} {c : Cmd} {r : c.Resp}
    (hx : c.exec fault infra = some (r, infra')) : infra.db.workerSeq ≤ infra'.db.workerSeq := by
  cases Cmd.exec_cases hx with
  | write hq =>
    simp only [(Write.sequences hq).2]
    exact Nat.le_add_right _ _
  | _ => exact Nat.le_refl _

theorem exec_dispatcher {infra infra' : Infra} {c : Cmd} {r : c.Resp}
    (hx : c.exec fault infra = some (r, infra')) : infra'.dispatcher = infra.dispatcher := by
  cases Cmd.exec_cases hx <;> rfl

theorem exec_replies {infra infra' : Infra} {c : Cmd} {r : c.Resp}
    (hx : c.exec fault infra = some (r, infra')) (hr : infra'.replies.find rx = some reply) :
    infra.replies.find rx = some reply := by
  cases Cmd.exec_cases hx with
  | recvFetch =>
    rw [Table.find_erase] at hr
    split at hr
    next => cases hr
    next => exact hr
  | _ => exact hr

theorem exec_recvFetch {infra infra' : Infra}
    (hx : (Cmd.recvFetch rx).exec fault infra = some (.ok reply, infra')) :
    infra.replies.find rx = some reply := by
  cases Cmd.exec_cases hx with
  | recvFetch hr => exact hr

theorem exec_taskChan {infra infra' : Infra} {c : Cmd} {r : c.Resp}
    (hx : c.exec fault infra = some (r, infra')) (hm : op ∈ infra'.taskChan) :
    op ∈ infra.taskChan ∨ c = .sendTask op ∨
      ∃ w, op = .fetchTask w infra.nextTicket ∧
        (⟨c, r⟩ : Entry Cmd Cmd.Resp) = ⟨.sendFetch w, .ok infra.nextTicket⟩ := by
  cases Cmd.exec_cases hx with
  | sendTask =>
    rcases List.mem_append.1 hm with hm | hm
    · exact .inl hm
    · obtain rfl := List.mem_singleton.1 hm
      exact .inr (.inl rfl)
  | sendFetch =>
    rcases List.mem_append.1 hm with hm | hm
    · exact .inl hm
    · obtain rfl := List.mem_singleton.1 hm
      exact .inr (.inr ⟨_, rfl, rfl⟩)
  | _ => exact .inl hm

theorem command {c : Cmd} {k : c.Resp → HandlerProg} {r : c.Resp} (h : Served log s)
    (hg : Grounded log s) (hi : s.pool[i]? = some hd) (hp : hd.prog = .call c k)
    (hx : c.exec fault s.infra = some (r, s'.infra))
    (hcalls : ∀ (i : Nat) (h : Handler), s'.pool[i]? = some h →
      h.call.isRequest = true ∨ ∃ w, h.call = .timeout w) :
    Served (log ++ [(i, ⟨c, r⟩)]) s' := by
  have hle := exec_workerSeq hx
  have hnew : ∀ w rx, (⟨c, r⟩ : Entry Cmd Cmd.Resp) = ⟨.sendFetch w, .ok rx⟩ →
      rx = s.infra.nextTicket ∧ s'.infra.nextTicket = s.infra.nextTicket + 1 := by
    rintro w rx ⟨⟩
    have he := Cmd.exec_cases hx
    generalize s'.infra = infra at he
    cases he
    exact ⟨rfl, rfl⟩
  have hnext : s.infra.nextTicket ≤ s'.infra.nextTicket := by
    have he := Cmd.exec_cases hx
    generalize s'.infra = infra at he
    cases he with
    | sendFetch => exact Nat.le_succ _
    | _ => exact Nat.le_refl _
  have hold : ∀ w rx, Ticketed log w rx → Ticketed (log ++ [(i, ⟨c, r⟩)]) w rx :=
    fun w rx ht => ticketed_concat.2 (.inl ht)
  refine ⟨hcalls, ?_, ?_, ?_, ?_, ?_, ?_, ?_, ?_⟩
  · intro w rx ht
    rcases ticketed_concat.1 ht with ht | he
    · exact Nat.lt_of_lt_of_le (h.drawn w rx ht) hnext
    · obtain ⟨rfl, hn⟩ := hnew w rx he
      rw [hn]
      exact Nat.lt_succ_self _
  · intro w w' rx ht ht'
    rcases ticketed_concat.1 ht with ht | he
    · rcases ticketed_concat.1 ht' with ht' | he'
      · exact h.owner w w' rx ht ht'
      · exact (Nat.ne_of_lt (h.drawn w rx ht) (hnew w' rx he').1).elim
    · rcases ticketed_concat.1 ht' with ht' | he'
      · exact (Nat.ne_of_lt (h.drawn w' rx ht') (hnew w rx he).1).elim
      · obtain ⟨⟩ := he.symm.trans he'
        rfl
  · intro w rx hm
    rcases exec_taskChan hx hm with hm | rfl | ⟨w', hop, he⟩
    · exact hold w rx (h.sent w rx hm)
    · exact (hg.sourced hi hp).elim
    · obtain ⟨⟩ := hop
      exact ticketed_concat.2 (.inr he)
  · intro e hm uuid creator tags labels time w row he
    rcases List.mem_append.1 hm with hm | hm
    · exact Nat.lt_of_lt_of_le (h.inserted e hm uuid creator tags labels time w row he) hle
    · obtain rfl := List.mem_singleton.1 hm
      obtain ⟨⟩ := he
      rcases Cmd.exec_write hx with ⟨_, hr, -⟩ | ⟨_, _, -, hq, hr, hs⟩
      · cases hr
      · obtain ⟨⟩ := hr
        obtain ⟨⟩ := hq
        rw [hs]
        exact Nat.lt_succ_self _
  · intro w hm
    rcases exec_taskChan hx hm with hm | rfl | ⟨w', hop, he⟩
    · exact Nat.lt_of_lt_of_le (h.registers w hm) hle
    · rcases hg.sourced hi hp with hc | ⟨_, _, _, _, _, _, hm⟩
      · rcases h.calls i hd hi with hr | ⟨_, hr⟩ <;> rw [hc] at hr <;> cases hr
      · exact Nat.lt_of_lt_of_le (h.inserted _ (mem_history.1 hm) _ _ _ _ _ w _ rfl) hle
    · cases hop
  · intro w hw
    rw [exec_dispatcher hx] at hw
    exact Nat.lt_of_lt_of_le (h.queues w hw) hle
  · intro rx t hr
    obtain ⟨w, ht, hw⟩ := h.replied rx t (exec_replies hx hr)
    exact ⟨w, hold w rx ht, Nat.lt_of_lt_of_le hw hle⟩
  · intro j rx t hm
    rcases List.mem_append.1 hm with hm | hm
    · obtain ⟨w, ht, hw⟩ := h.received j rx t hm
      exact ⟨w, hold w rx ht, Nat.lt_of_lt_of_le hw hle⟩
    · obtain ⟨⟩ := List.mem_singleton.1 hm
      obtain ⟨w, ht, hw⟩ := h.replied rx t (exec_recvFetch hx)
      exact ⟨w, hold w rx ht, Nat.lt_of_lt_of_le hw hle⟩

theorem step (h : Served log s) (hg : Grounded log s) (hs : s.step a = some s') :
    Served (log ++ (s.event a).toList) s' := by
  have hcalls := h.calls_step hs
  cases State.step_cases hs with
  | call | abortTimeout =>
    change Served (log ++ []) _
    rw [List.append_nil]
    exact h.silent hcalls (List.Subset.refl _) rfl rfl rfl rfl
  | background hb =>
    have he : s.event a = none := by cases hb <;> rfl
    rw [he, Option.toList_none, List.append_nil]
    cases hb with
    | dispatch hb => exact h.dispatch hb
    | recvHeartbeat hb =>
      obtain ⟨_, _, rfl⟩ := Infra.recvHeartbeat_some hb
      exact h.silent hcalls (List.Subset.refl _) rfl rfl rfl rfl
    | stopDispatcher => exact h.silent hcalls (List.nil_subset _) rfl rfl rfl rfl
    | accounts | tick | cancel | stopHeartbeatQueue =>
      exact h.silent hcalls (List.Subset.refl _) rfl rfl rfl rfl
  | timeout hb =>
    change Served (log ++ []) _
    rw [List.append_nil]
    obtain ⟨-, -, -, rfl⟩ := Infra.popExpired_some hb
    exact h.silent hcalls (List.Subset.refl _) rfl rfl rfl rfl
  | @step i hd fault infra c k r hi hp hx =>
    rw [(State.event_step hi hp hx).2, Option.toList_some]
    exact h.command hg hi hp hx hcalls

end Served

theorem served_of_path {s : State}
    (hp : Path State.step ok (State.initial accounts timeout clock) as s) :
    Served ((State.initial accounts timeout clock).log as) s := by
  induction hp with
  | nil => exact served_initial
  | snoc hp _ hs ih =>
    rw [State.log_snoc hp hs]
    exact ih.step (grounded_of_path hp) hs

/-- A property of the database and the log that every command of a handler preserves, and
that the tables of accounts do not matter to, holds in every run. -/
theorem log_invariant {s : State} {P : List Event → Db → Prop}
    (hp : Path State.step ok (State.initial accounts timeout clock) as s)
    (h₀ : P [] (State.initial accounts timeout clock).infra.db)
    (hacc : ∀ log infra a, P log infra.db → P log (Infra.setAccounts infra a).db)
    (hcmd : ∀ as (s : State) (i : Nat) (hd : Handler) (c : Cmd) (k : c.Resp → HandlerProg)
      (r : c.Resp) fault infra, Path State.step ok (State.initial accounts timeout clock) as s →
      P ((State.initial accounts timeout clock).log as) s.infra.db → s.pool[i]? = some hd →
      hd.prog = .call c k → c.exec fault s.infra = some (r, infra) →
      P ((State.initial accounts timeout clock).log as ++ [(i, ⟨c, r⟩)]) infra.db) :
    P ((State.initial accounts timeout clock).log as) s.infra.db := by
  induction hp with
  | nil => exact h₀
  | @snoc as s a s' hp _ hs ih =>
    rw [State.log_snoc hp hs]
    cases State.step_cases hs with
    | call | abortTimeout =>
      change P (_ ++ []) _
      rwa [List.append_nil]
    | background hb =>
      have he : s.event a = none := by cases hb <;> rfl
      rw [he, Option.toList_none, List.append_nil]
      cases hb with
      | dispatch hb =>
        obtain ⟨_, _, _, _, _, _, rfl⟩ := Infra.dispatch_some hb
        exact ih
      | recvHeartbeat hb =>
        obtain ⟨_, _, rfl⟩ := Infra.recvHeartbeat_some hb
        exact ih
      | accounts => exact hacc _ _ _ ih
      | tick | cancel | stopDispatcher | stopHeartbeatQueue => exact ih
    | timeout hb =>
      obtain ⟨-, -, -, rfl⟩ := Infra.popExpired_some hb
      change P (_ ++ []) _
      rwa [List.append_nil]
    | @step i hd fault infra c k r hi hprog hx =>
      rw [(State.event_step hi hprog hx).2, Option.toList_some]
      exact hcmd as s i hd c k r fault infra hp ih hi hprog hx

end Mitosis
