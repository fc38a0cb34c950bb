import Mitosis.Coordinator

namespace Mitosis
set_option autoImplicit true

/-- A command that the handler with the given index issued, and its response. -/
abbrev Event := Nat × Entry Cmd Cmd.Resp

namespace State

def next (s : State) (i : Nat) : Option Cmd := (s.pool[i]?).bind fun h => h.prog.head

def event (s : State) : Action → Option Event
  | .step i fault => (s.next i).bind fun c => (c.exec fault s.infra).map fun r => (i, ⟨c, r.1⟩)
  | _ => none

def log (s : State) : List Action → List Event
  | [] => []
  | a :: as => (s.event a).toList ++ (s.step a).elim [] fun s => s.log as

theorem log_append {s s' : State} (hp : Path step ok s as s') (bs : List Action) :
    s.log (as ++ bs) = s.log as ++ s'.log bs := by
  induction hp generalizing bs with
  | nil => rfl
  | snoc _ _ hs ih =>
    rw [List.append_assoc, ih, ih, List.append_assoc]
    congr 1
    simp only [List.singleton_append, log, hs, Option.elim_some, List.append_nil]

theorem log_snoc {s s' : State} (hp : Path step ok s as s') (hs : s'.step a = some s'') :
    s.log (as ++ [a]) = s.log as ++ (s'.event a).toList := by
  rw [log_append hp]
  simp only [log, hs, Option.elim_some, List.append_nil]

/-- The step that recorded a given entry of the log, with the run before it. -/
theorem log_split {s s' : State} (hp : Path step ok s as s')
    (hl : s.log as = pre ++ e :: post) : ∃ bs a s₁ s₂, Path step ok s bs s₁ ∧
      s.log bs = pre ∧ s₁.event a = some e ∧ s₁.step a = some s₂ ∧ ok s₁ a := by
  induction hp generalizing post with
  | nil => cases pre <;> cases hl
  | @snoc as s₁ a s₂ hp ha hs ih =>
    rw [log_snoc hp hs] at hl
    cases he : s₁.event a with
    | none =>
      rw [he, Option.toList_none, List.append_nil] at hl
      exact ih hl
    | some e' =>
      rw [he, Option.toList_some] at hl
      rcases List.eq_nil_or_concat post with rfl | ⟨post, x, rfl⟩
      · obtain ⟨hpre, hx⟩ := List.append_inj' hl rfl
        exact ⟨as, a, s₁, s₂, hp, hpre, he.trans (congrArg some (List.cons.inj hx).1), hs, ha⟩
      · rw [List.concat_eq_append, ← List.cons_append, ← List.append_assoc] at hl
        exact ih (List.append_inj' hl rfl).1

end State

namespace Cmd
variable {s s' : Infra} {fault : Option DbErr}

theorem exec_write {q : Write} {r : (Cmd.write q).Resp}
    (h : (Cmd.write q).exec fault s = some (r, s')) :
    (∃ e, r = .error e ∧ s' = s) ∨ ∃ a db, fault = none ∧ q.run s.clock s.db = .ok (a, db) ∧
      r = .ok a ∧ s' = { s with db } := by
  cases fault with
  | some e =>
    obtain ⟨⟩ := h
    exact .inl ⟨_, rfl, rfl⟩
  | none =>
    simp only [exec] at h
    split at h
    next e _ =>
      obtain ⟨⟩ := h
      exact .inl ⟨e, rfl, rfl⟩
    next a db hq =>
      obtain ⟨⟩ := h
      exact .inr ⟨a, db, rfl, hq, rfl, rfl⟩

theorem exec_select {q : Select} {r : (Cmd.select q).Resp}
    (h : (Cmd.select q).exec fault s = some (r, s')) :
    s' = s ∧ ((∃ e, fault = some e ∧ r = .error (.dbError e)) ∨
      fault = none ∧ r = .ok (q.eval s.db)) := by
  cases fault <;> obtain ⟨⟩ := h
  · exact ⟨rfl, .inr ⟨rfl, rfl⟩⟩
  · exact ⟨rfl, .inl ⟨_, rfl, rfl⟩⟩

/-- What a command does, if it does not fail. -/
inductive Executed (s : Infra) : (c : Cmd) → c.Resp → Infra → Prop
  | failed : Executed s c (.error e) s
  | select : Executed s (.select q) (.ok (q.eval s.db)) s
  | write : q.run s.clock s.db = .ok (a, db) → Executed s (.write q) (.ok a) { s with db }
  | sendTask : s.taskRx = true →
    Executed s (.sendTask op) (.ok ()) { s with taskChan := s.taskChan ++ [op] }
  | sendHeartbeat : s.heartbeatRx = true →
    Executed s (.sendHeartbeat op) (.ok ()) { s with heartbeatChan := s.heartbeatChan ++ [op] }
  | sendFetch : s.taskRx = true → Executed s (.sendFetch w) (.ok s.nextTicket) { s with
      taskChan := s.taskChan ++ [.fetchTask w s.nextTicket]
      nextTicket := s.nextTicket + 1 }
  | recvFetch : s.replies.find rx = some reply →
    Executed s (.recvFetch rx) (.ok reply) { s with replies := s.replies.erase rx }
  | now : Executed s .now (.ok s.clock) s
  | newUuid : Executed s .newUuid (.ok s.nextUuid) { s with nextUuid := s.nextUuid + 1 }
  | cancelToken : Executed s .cancelToken (.ok ()) { s with cancelled := true }

theorem exec_cases {c : Cmd} {r : c.Resp} (h : c.exec fault s = some (r, s')) :
    Executed s c r s' := by
  cases c with
  | write q =>
    rcases exec_write h with ⟨e, rfl, rfl⟩ | ⟨a, db, -, hq, rfl, rfl⟩
    · exact .failed
    · exact .write hq
  | select q =>
    obtain ⟨rfl, ⟨e, -, rfl⟩ | ⟨-, rfl⟩⟩ := exec_select h
    · exact .failed
    · exact .select
  | sendTask | sendHeartbeat | sendFetch =>
    simp only [exec] at h
    split at h
    next hrx =>
      obtain ⟨⟩ := h
      constructor
      exact hrx
    next =>
      obtain ⟨⟩ := h
      exact .failed
  | recvFetch rx =>
    simp only [exec] at h
    split at h
    next reply hr =>
      obtain ⟨⟩ := h
      exact .recvFetch hr
    next =>
      split at h
      next => cases h
      next =>
        obtain ⟨⟩ := h
        exact .failed
  | now | newUuid | cancelToken =>
    obtain ⟨⟩ := h
    constructor

theorem exec_db {c : Cmd} {r : c.Resp} (h : c.exec fault s = some (r, s'))
    (hc : ∀ q, c ≠ .write q) : s'.db = s.db := by
  cases exec_cases h with
  | write => exact (hc _ rfl).elim
  | _ => rfl

end Cmd

/-- The steps of the coordinator that no handler makes. -/
inductive Infra.Background (s : Infra) : Action → Infra → Prop
  | dispatch : s.dispatch pick = some s' → Background s (.dispatch pick) s'
  | recvHeartbeat : s.recvHeartbeat = some s' → Background s .recvHeartbeat s'
  | accounts : Background s (.accounts a) (s.setAccounts a)
  | tick : Background s .tick { s with clock := s.clock + 1 }
  | cancel : Background s .cancel { s with cancelled := true }
  | stopDispatcher : s.cancelled = true →
    Background s .stopDispatcher { s with taskRx := false, taskChan := [] }
  | stopHeartbeatQueue : s.cancelled = true →
    Background s .stopHeartbeatQueue { s with heartbeatRx := false, heartbeatChan := [] }

/-- The rest of a `handle_timeout` that was dropped. -/
def Handler.aborted (h : Handler) : Handler :=
  ⟨h.call, .call .cancelToken fun _ => .ret (.done (.ok .unit))⟩

/-- Every kind of step of the coordinator. -/
inductive Stepped (s : State) : Action → State → Prop
  | call : c.isRequest = true →
    Stepped s (.call c) { s with pool := s.pool ++ [.start program c] }
  | step {c : Cmd} {k : c.Resp → HandlerProg} {r : c.Resp} : s.pool[i]? = some h → h.prog = .call c k →
    c.exec fault s.infra = some (r, infra) →
    Stepped s (.step i fault) ⟨infra, s.pool.set i (h.resume program (k r))⟩
  | background : s.infra.Background a infra → Stepped s a ⟨infra, s.pool⟩
  | timeout : s.infra.popExpired w = some infra →
    Stepped s (.timeout w) ⟨infra, s.pool ++ [.start program (.timeout w)]⟩
  | abortTimeout : s.pool[i]? = some h → h.isTimeout = true →
    Stepped s (.abortTimeout i) ⟨s.infra, s.pool.set i h.aborted⟩

theorem State.step_cases {s s' : State} (hs : s.step a = some s') : Stepped s a s' := by
  cases a with
  | call c =>
    simp only [State.step] at hs
    split at hs
    next hc =>
      obtain ⟨⟩ := hs
      exact .call hc
    next => cases hs
  | step i fault =>
    obtain ⟨h, hi, hs⟩ := Option.bind_eq_some_iff.1 hs
    obtain ⟨⟨h', infra⟩, ht, hs⟩ := Option.bind_eq_some_iff.1 hs
    obtain ⟨⟩ := hs
    obtain ⟨c, k, r, hp, hx, rfl⟩ := Thread.step_some ht
    exact .step hi hp hx
  | dispatch pick =>
    obtain ⟨infra, hd, rfl⟩ := Option.map_eq_some_iff.1 hs
    exact .background (.dispatch hd)
  | recvHeartbeat =>
    simp only [State.step] at hs
    split at hs
    next => cases hs
    next =>
      obtain ⟨infra, hr, rfl⟩ := Option.map_eq_some_iff.1 hs
      exact .background (.recvHeartbeat hr)
  | timeout w =>
    simp only [State.step] at hs
    split at hs
    next => cases hs
    next =>
      obtain ⟨infra, hr, rfl⟩ := Option.map_eq_some_iff.1 hs
      exact .timeout hr
  | abortTimeout i =>
    obtain ⟨h, hi, hs⟩ := Option.bind_eq_some_iff.1 hs
    split at hs
    next ht =>
      obtain ⟨⟩ := hs
      exact .abortTimeout hi ht
    next => cases hs
  | accounts a =>
    obtain ⟨⟩ := hs
    exact .background .accounts
  | tick =>
    obtain ⟨⟩ := hs
    exact .background .tick
  | cancel =>
    obtain ⟨⟩ := hs
    exact .background .cancel
  | stopDispatcher =>
    simp only [State.step] at hs
    split at hs
    next hc =>
      obtain ⟨⟩ := hs
      exact .background (.stopDispatcher hc)
    next => cases hs
  | stopHeartbeatQueue =>
    simp only [State.step] at hs
    split at hs
    next hc =>
      obtain ⟨⟩ := hs
      exact .background (.stopHeartbeatQueue hc)
    next => cases hs

namespace State
variable {s s' : State} {h h' : Handler} {j : Nat}

theorem step_handler (hs : s.step a = some s') (hj : s.pool[j]? = some h) :
    s'.pool[j]? = some h ∨
    (a = .abortTimeout j ∧ h.isTimeout = true ∧ s'.pool[j]? = some h.aborted) ∨
    ∃ (c : Cmd) (k : c.Resp → HandlerProg) (r : c.Resp) (fault : Option DbErr),
      a = .step j fault ∧ h.prog = .call c k ∧ c.exec fault s.infra = some (r, s'.infra) ∧
      s'.pool[j]? = some (h.resume program (k r)) := by
  have hlt := (List.getElem?_eq_some_iff.1 hj).1
  cases step_cases hs with
  | call | timeout =>
    refine .inl ?_
    rw [List.getElem?_append_left hlt]
    exact hj
  | background => exact .inl hj
  | @abortTimeout i hd hi ht =>
    by_cases hij : i = j
    · subst hij
      obtain rfl := Option.some.inj (hi.symm.trans hj)
      exact .inr (.inl ⟨rfl, ht, List.getElem?_set_self hlt⟩)
    · exact .inl ((List.getElem?_set_ne hij).trans hj)
  | @step i hd fault infra c k r hi hp hx =>
    by_cases hij : i = j
    · subst hij
      obtain rfl := Option.some.inj (hi.symm.trans hj)
      exact .inr (.inr ⟨c, k, r, fault, rfl, hp, hx, List.getElem?_set_self hlt⟩)
    · exact .inl ((List.getElem?_set_ne hij).trans hj)

theorem step_origin (hs : s.step a = some s') (hj : s'.pool[j]? = some h') :
    s.pool[j]? = some h' ∨ (∃ c, (c.isRequest = true ∨ ∃ w, c = .timeout w) ∧
      s.pool.length = j ∧ h' = .start program c) ∨
    (∃ h, s.pool[j]? = some h ∧ h.isTimeout = true ∧ h' = h.aborted) ∨
    ∃ (h : Handler) (c : Cmd) (k : c.Resp → HandlerProg) (r : c.Resp) (fault : Option DbErr),
      a = .step j fault ∧ s.pool[j]? = some h ∧ h.prog = .call c k ∧
      c.exec fault s.infra = some (r, s'.infra) ∧ h' = h.resume program (k r) := by
  cases step_cases hs with
  | @call c hc =>
    rcases getElem?_concat hj with hj | ⟨rfl, rfl⟩
    · exact .inl hj
    · exact .inr (.inl ⟨c, .inl hc, rfl, rfl⟩)
  | @timeout w infra hp =>
    rcases getElem?_concat hj with hj | ⟨rfl, rfl⟩
    · exact .inl hj
    · exact .inr (.inl ⟨.timeout w, .inr ⟨w, rfl⟩, rfl, rfl⟩)
  | background => exact .inl hj
  | @abortTimeout i hd hi ht =>
    rcases getElem?_set hj with ⟨rfl, rfl⟩ | ⟨-, hj⟩
    · exact .inr (.inr (.inl ⟨hd, hi, ht, rfl⟩))
    · exact .inl hj
  | @step i hd fault infra c k r hi hp hx =>
    rcases getElem?_set hj with ⟨rfl, rfl⟩ | ⟨-, hj⟩
    · exact .inr (.inr (.inr ⟨hd, c, k, r, fault, rfl, hi, hp, hx, rfl⟩))
    · exact .inl hj

end State

/-- What a step does to the database: nothing, or one write. -/
inductive DbStep (s : State) (a : Action) (s' : State) : Prop
  | same : s'.infra.db = s.infra.db → DbStep s a s'
  | accounts : a = .accounts acc → s'.infra = s.infra.setAccounts acc → DbStep s a s'
  | write {q : Write} {r : q.Ret} : a = .step i none → s.next i = some (.write q) →
    s.event a = some (i, ⟨.write q, .ok r⟩) →
    q.run s.infra.clock s.infra.db = .ok (r, s'.infra.db) → DbStep s a s'

namespace Infra

/-- What the receiving end of the channel does with its oldest op. -/
theorem dispatch_some {s s' : Infra} (h : s.dispatch pick = some s') : ∃ op ops,
    s.taskChan = op :: ops ∧ s.taskRx = true ∧ s.cancelled = false ∧
    s.dispatcher.admits op pick = true ∧
    s' = { s with
      taskChan := ops
      dispatcher := (s.dispatcher.handleOp op pick true).dispatcher
      replies := (s.dispatcher.handleOp op pick true).reply.elim s.replies
        fun r => s.replies.set r.1 r.2 } := by
  unfold dispatch at h
  cases hc : s.taskChan with
  | nil =>
    rw [hc] at h
    cases h
  | cons op ops =>
    rw [hc] at h
    dsimp only at h
    split at h
    next hp =>
      obtain ⟨⟩ := h
      simp only [Bool.and_eq_true, Bool.not_eq_true'] at hp
      exact ⟨op, ops, rfl, hp.1.1, hp.1.2, hp.2, rfl⟩
    next => cases h

theorem recvHeartbeat_some {s s' : Infra} (h : s.recvHeartbeat = some s') :
    ∃ ops queue, s' = { s with heartbeatChan := ops, heartbeatQueue := queue } := by
  unfold recvHeartbeat at h
  split at h
  next => cases h
  next op ops _ =>
    split at h
    next =>
      obtain ⟨⟩ := h
      exact ⟨ops, _, rfl⟩
    next => cases h

theorem popExpired_some {s s' : Infra} (h : s.popExpired w = some s') :
    s.heartbeatRx = true ∧ s.cancelled = false ∧
      s.heartbeatQueue.expires w s.clock = true ∧
      s' = { s with heartbeatQueue := s.heartbeatQueue.unregisterWorker w } := by
  unfold popExpired at h
  split at h
  next hp =>
    obtain ⟨⟩ := h
    simp only [Bool.and_eq_true, Bool.not_eq_true'] at hp
    exact ⟨hp.1.1, hp.1.2, hp.2, rfl⟩
  next => cases h

end Infra

namespace State

theorem event_step {s : State} {infra : Infra} {c : Cmd} {k : c.Resp → HandlerProg}
    {r : c.Resp} (hi : s.pool[i]? = some h) (hp : h.prog = .call c k)
    (hx : c.exec fault s.infra = some (r, infra)) :
    s.next i = some c ∧ s.event (.step i fault) = some (i, ⟨c, r⟩) := by
  have hn : s.next i = some c := by
    simp only [State.next, hi, hp, Option.bind_some, Prog.head]
  exact ⟨hn, by simp only [State.event, hn, Option.bind_some, hx, Option.map_some]⟩

theorem event_exec {s s' : State} {c : Cmd} {r : c.Resp} (hs : s.step a = some s')
    (he : s.event a = some (i, ⟨c, r⟩)) : ∃ fault, a = .step i fault ∧ s.next i = some c ∧
      c.exec fault s.infra = some (r, s'.infra) := by
  cases step_cases hs with
  | call | timeout | abortTimeout => cases he
  | background hb => cases hb <;> cases he
  | @step i hd fault infra c k r hi hp hx =>
    obtain ⟨hn, he'⟩ := event_step hi hp hx
    obtain ⟨⟩ := he'.symm.trans he
    exact ⟨fault, rfl, hn, hx⟩

theorem step_exec {s s' : State} {c : Cmd} (hs : s.step (.step i fault) = some s')
    (hn : s.next i = some c) : ∃ r, c.exec fault s.infra = some (r, s'.infra) := by
  cases step_cases hs with
  | background hb => cases hb
  | @step i hd fault infra c' k r hi hp hx =>
    obtain rfl := Option.some.inj ((event_step hi hp hx).1.symm.trans hn)
    exact ⟨r, hx⟩

/-- The handler behind an entry of the log, before and after its step. -/
theorem event_handler {s s' : State} {c : Cmd} {r : c.Resp} (hs : s.step a = some s')
    (he : s.event a = some (i, ⟨c, r⟩)) : ∃ (h : Handler) (k : c.Resp → HandlerProg),
      s.pool[i]? = some h ∧ h.prog = .call c k ∧
      s'.pool[i]? = some (h.resume program (k r)) := by
  cases step_cases hs with
  | call | timeout | abortTimeout => cases he
  | background hb => cases hb <;> cases he
  | @step i hd fault infra c k r hi hp hx =>
    obtain ⟨-, he'⟩ := event_step hi hp hx
    obtain ⟨⟩ := he'.symm.trans he
    exact ⟨hd, k, hi, hp, List.getElem?_set_self (List.getElem?_eq_some_iff.1 hi).1⟩

theorem event_write {s s' : State} {q : Write} {r : q.Ret} (hs : s.step a = some s')
    (he : s.event a = some (i, ⟨.write q, .ok r⟩)) :
    q.run s.infra.clock s.infra.db = .ok (r, s'.infra.db) := by
  obtain ⟨fault, -, -, hx⟩ := event_exec hs he
  rcases Cmd.exec_write hx with ⟨_, hr, -⟩ | ⟨a, db, -, hq, hr, hs'⟩
  · cases hr
  · obtain ⟨⟩ := hr
    rw [hs']
    exact hq

theorem step_db {s s' : State} (hs : s.step a = some s') : DbStep s a s' := by
  cases step_cases hs with
  | call | abortTimeout => exact .same rfl
  | background hb =>
    cases hb with
    | dispatch h =>
      obtain ⟨_, _, _, _, _, _, rfl⟩ := Infra.dispatch_some h
      exact .same rfl
    | recvHeartbeat h =>
      obtain ⟨_, _, rfl⟩ := Infra.recvHeartbeat_some h
      exact .same rfl
    | accounts => exact .accounts rfl rfl
    | tick | cancel | stopDispatcher | stopHeartbeatQueue => exact .same rfl
  | timeout h =>
    obtain ⟨-, -, -, rfl⟩ := Infra.popExpired_some h
    exact .same rfl
  | @step i hd fault infra c k r hi hp hx =>
    obtain ⟨hn, he⟩ := event_step hi hp hx
    cases c with
    | write q =>
      rcases Cmd.exec_write hx with ⟨_, _, rfl⟩ | ⟨a, db, rfl, hq, rfl, rfl⟩
      · exact .same rfl
      · exact .write rfl hn he hq
    | _ => exact .same (Cmd.exec_db hx fun _ => nofun)

end State

namespace RunDemo

def accounts : Accounts where
  users := Table.empty.set 1 ⟨"u", .active⟩
  groups := Table.empty.set 1 ⟨"u", 0, .active, 0, 1000, 0⟩
  userGroup := Table.empty.set (1, 1) .admin
  artifacts := .empty

def start : State := .initial accounts 60 0

def spec : TaskSpec := ⟨[], [], [], false, none⟩

def request : SubmitTaskReq := ⟨"u", ["x"], [], 10, 5, spec⟩

def steps (i n : Nat) : List Action := List.replicate n (.step i none)

def drain (n : Nat) : List Action := List.replicate n (.dispatch none)

/-- A worker registers through the handler `i`. -/
def register (i : Nat) : List Action :=
  .call (.registerWorker 1 ["x"] [] []) :: steps i 9 ++ drain 2

/-- A task is submitted through the handler `i`. -/
def submit (i : Nat) : List Action := .call (.submitTask 1 request) :: steps i 6 ++ drain 1

/-- The worker `w` fetches the task `t` through the handler `i`. -/
def fetch (i : Nat) (w : WorkerId) (t : TaskId) : List Action :=
  .call (.fetchTask w) :: steps i 1 ++ .dispatch (some t) :: steps i 4

/-- The worker `w`, which has a task, is unregistered through the handler `i`. -/
def unregister (i : Nat) (w : WorkerId) : List Action :=
  .call (.unregisterWorker w) :: steps i 8 ++ drain 2

/-- The worker `w` finishes the task `t`, and submits a successor of it. -/
def finish (i : Nat) (w : WorkerId) (t : TaskId) : List Action :=
  .call (.reportTask w 0 t .finish) :: steps i 3

def succeed (i : Nat) (w : WorkerId) (t : TaskId) : List Action :=
  .call (.reportTask w 0 t (.submit request)) :: steps i 10

end RunDemo
end Mitosis
