import Mitosis.Identity
import Mitosis.Proof.TaskEdits

namespace Mitosis
set_option autoImplicit true

namespace Db

/-- What a query shows of a task, be it active or archived. -/
def info (db : Db) (t : TaskId) : Option TaskQueryInfo :=
  (db.row t).bind fun row => (db.joined row.creatorId row.groupId).map fun j => row.info j.1 j.2

theorem joined_some {db : Db} (h : db.Sound) (ho : db.ident t = some o) :
    ∃ j, db.joined o.creatorId o.groupId = some j := by
  obtain ⟨user, hu⟩ := h.created t o ho
  obtain ⟨group, hg, -⟩ := h.counted t o ho
  refine ⟨(user, group), ?_⟩
  rw [joined, hu, hg]
  rfl

namespace Sound
variable {db : Db}

theorem activeInfo_some (h : db.Sound) (ho : db.ident t = some o)
    (hi : db.activeInfo o.uuid = some found) : db.info t = some found := by
  obtain ⟨⟨t', task⟩, hm, he⟩ := List.exists_of_findSome?_eq_some hi
  dsimp only at he
  split at he
  next hu =>
    have hf := Table.mem_rows.1 hm
    obtain rfl := h.uuids t' t _ o (ident_active hf) ho hu
    rw [info, row_active hf]
    exact he
  next => cases he

theorem archivedInfo_some (h : db.Sound) (ho : db.ident t = some o)
    (hi : db.archivedInfo o.uuid = some found) : db.info t = some found := by
  obtain ⟨⟨t', task⟩, hm, he⟩ := List.exists_of_findSome?_eq_some hi
  dsimp only at he
  split at he
  next hu =>
    have hf := Table.mem_rows.1 hm
    have hn := h.active_none hf
    have hid : db.ident t' = some task.ident := by
      rw [ident_archived hn, hf]
      rfl
    obtain rfl := h.uuids t' t _ o hid ho hu
    rw [info, row_archived hn, hf]
    exact he
  next => cases he

theorem activeInfo_none (h : db.Sound) (ho : db.ident t = some o)
    (hi : db.activeInfo o.uuid = none) : ∃ row, db.archivedTasks.find t = some row := by
  cases hf : db.activeTasks.find t with
  | some task =>
    have hn := List.findSome?_eq_none_iff.1 hi (t, task) (Table.mem_rows.2 hf)
    rw [ident_active hf] at ho
    obtain rfl := Option.some.inj ho
    obtain ⟨j, hj⟩ := joined_some h (ident_active hf)
    rw [if_pos (show (t, task).2.uuid = task.ident.uuid from rfl)] at hn
    cases (Option.map_eq_none_iff.1 hn).symm.trans hj
  | none =>
    rw [ident_archived hf] at ho
    obtain ⟨row, hr, -⟩ := Option.map_eq_some_iff.1 ho
    exact ⟨row, hr⟩

theorem archivedInfo_none (h : db.Sound) (ho : db.ident t = some o)
    (hi : db.archivedInfo o.uuid = none) : db.archivedTasks.find t = none := by
  cases hf : db.archivedTasks.find t with
  | none => rfl
  | some task =>
    have hn := List.findSome?_eq_none_iff.1 hi (t, task) (Table.mem_rows.2 hf)
    have hid : db.ident t = some task.ident := by
      rw [ident_archived (h.active_none hf), hf]
      rfl
    obtain rfl := Option.some.inj (ho.symm.trans hid)
    obtain ⟨j, hj⟩ := joined_some h hid
    rw [if_pos (show (t, task).2.uuid = task.ident.uuid from rfl)] at hn
    cases (Option.map_eq_none_iff.1 hn).symm.trans hj

theorem activeByUuid_some {task : ActiveTask} (h : db.Sound) (ho : db.ident t = some o)
    (hi : db.findActiveByUuid o.uuid = some (t', task)) :
    t' = t ∧ db.activeTasks.find t = some task := by
  obtain ⟨hf, hu⟩ := Table.findWhere_some hi
  obtain rfl := h.uuids t' t _ o (ident_active hf) ho (of_decide_eq_true hu)
  exact ⟨rfl, hf⟩

theorem archivedByUuid_some {task : ArchivedTask} (h : db.Sound) (ho : db.ident t = some o)
    (hi : db.findArchivedByUuid o.uuid = some (t', task)) :
    t' = t ∧ db.archivedTasks.find t = some task := by
  obtain ⟨hf, hu⟩ := Table.findWhere_some hi
  have hid : db.ident t' = some task.ident := by
    rw [ident_archived (h.active_none hf), hf]
    rfl
  obtain rfl := h.uuids t' t _ o hid ho (of_decide_eq_true hu)
  exact ⟨rfl, hf⟩

theorem activeByUuid_none (ho : db.ident t = some o) (hi : db.findActiveByUuid o.uuid = none) :
    ∃ row, db.archivedTasks.find t = some row := by
  cases hf : db.activeTasks.find t with
  | some task =>
    have hn := Table.findWhere_none hi hf
    rw [ident_active hf] at ho
    obtain rfl := Option.some.inj ho
    exact (of_decide_eq_false hn rfl).elim
  | none =>
    rw [ident_archived hf] at ho
    obtain ⟨row, hr, -⟩ := Option.map_eq_some_iff.1 ho
    exact ⟨row, hr⟩

theorem archivedByUuid_none (h : db.Sound) (ho : db.ident t = some o)
    (hi : db.findArchivedByUuid o.uuid = none) : db.archivedTasks.find t = none := by
  cases hf : db.archivedTasks.find t with
  | none => rfl
  | some task =>
    have hn := Table.findWhere_none hi hf
    have hid : db.ident t = some task.ident := by
      rw [ident_archived (h.active_none hf), hf]
      rfl
    obtain rfl := Option.some.inj (ho.symm.trans hid)
    exact (of_decide_eq_false hn rfl).elim

end Sound
end Db

namespace Tasks
open Sessions

/-- `P` holds at a moment of the run at which the session has started and has not returned. -/
def During (s s' : State) (as : List (Act Call Chance Env)) (i : Nat) (P : Db → Prop) : Prop :=
  ∃ before after m, as = before ++ after ∧
    Path (Sessions.step system) (fun _ _ => True) s before m ∧
    Path (Sessions.step system) (fun _ _ => True) m after s' ∧
    i < m.pool.length ∧ m.result i = none ∧ P m.shared.txns.committed

section
variable {s s' m m' : State} {as bs : List (Act Call Chance Env)} {i : Nat}
  {e : Entry Cmd Cmd.Resp} {K : History} {P : Db → Prop}

theorem During.of_issued (h : Issued system (fun _ _ => True) s s' as i e K m m')
    (hP : P m.shared.txns.committed) : During s s' as i P := by
  obtain ⟨before, after, fault, rfl, hm, hok, hst, hm', -⟩ := h.run
  obtain ⟨hi, hn⟩ := pending_of_step hst
  have hq : Path (Sessions.step system) (fun _ _ => True) m ([] ++ [.step i fault]) m' :=
    .snoc .nil hok hst
  exact ⟨before, .step i fault :: after, m, rfl, hm, hq.trans hm', hi, hn, hP⟩

theorem issued_state (hp : Path (Sessions.step system) (fun _ _ => True) (initial db clock) bs s)
    (h : Issued system (fun _ _ => True) s s' as i e K m m') (hK : txn K = none) :
    ∃ cs, Path (Sessions.step system) (fun _ _ => True) (initial db clock) cs m ∧
      Kept s.shared.txns.committed m.shared.txns.committed ∧
      m.shared.txns.committed.Sound ∧
      m.shared.txns.view i = m.shared.txns.committed := by
  obtain ⟨before, after, fault, -, hm, -⟩ := h.run
  have htr := tracked (hp.trans hm)
  refine ⟨_, hp.trans hm, path_kept hp hm, htr.sound, ?_⟩
  apply htr.records.view_none
  rw [h.before]
  exact hK

/-- The answer that a session got, at the moment of the step. -/
theorem issued_tasks {q : TaskSelect} {a : q.Ret}
    (h : Issued system (fun _ _ => True) s s' as i ⟨.tasks q, .ok a⟩ K m m')
    (hv : m.shared.txns.view i = m.shared.txns.committed) :
    a = q.eval m.shared.txns.committed := by
  obtain ⟨before, after, fault, -, -, -, -, -, hx⟩ := h.run
  rw [← hv]
  exact exec_tasks hx

theorem issued_select {q : Select} {a : q.Ret}
    (h : Issued system (fun _ _ => True) s s' as i ⟨.select q, .ok a⟩ K m m')
    (hv : m.shared.txns.view i = m.shared.txns.committed) :
    a = q.eval m.shared.txns.committed := by
  obtain ⟨before, after, fault, -, -, -, -, -, hx⟩ := h.run
  rw [← hv]
  exact exec_select hx

theorem not_found_ne {e : Error} (h : ∃ d, e = .dbError d) (msg : String) :
    e ≠ Service.notFound msg := by
  obtain ⟨d, rfl⟩ := h
  exact fun h => by cases h

/-- The result of a lookup: an error that does not say that there is no such task, or a row that
the task had during the lookup. -/
def Answered (s s' : State) (as : List (Act Call Chance Env)) (i : Nat) (P : α → Db → Prop) :
    Except Error α → Prop
  | .ok a => During s s' as i (P a)
  | .error e => ∀ msg, e ≠ Service.notFound msg

theorem getTask_answered
    (hp : Path (Sessions.step system) (fun _ _ => True) (initial db clock) bs s)
    (hq : Path (Sessions.step system) (fun _ _ => True) s as s')
    (ho : s.shared.txns.committed.ident t = some o) (h₀ : history i s.log = [])
    (h : Service.GotTask o.uuid (history i s'.log) r) :
    Answered s s' as i (fun resp db => db.info t = some resp.info) r := by
  have hlen : ∀ L : History, (history i s.log).length ≤ L.length := by
    intro L
    rw [h₀]
    exact Nat.zero_le _
  cases r with
  | error e =>
    rcases h with ⟨q, K', hK⟩ | hK
    · obtain ⟨m, m', hi⟩ := issued_of_history [] hq (hlen K') hK
      obtain ⟨before, after, fault, -, -, -, -, -, hx⟩ := hi.run
      exact not_found_ne (exec_tasks_error hx)
    · -- the task is archived at the first read, and so at the second
      obtain ⟨m₁, m₁', m₂, m₂', hi₁, hi₂, cs, hcs⟩ := issued_twice [] hq (hlen []) hK
      obtain ⟨bs₁, hp₁, hk₁, hs₁, hv₁⟩ := issued_state hp hi₁ rfl
      obtain ⟨bs₂, hp₂, hk₂, hs₂, hv₂⟩ := issued_state hp hi₂ rfl
      have h₁ := issued_tasks hi₁ hv₁
      have h₂ := issued_tasks hi₂ hv₂
      obtain ⟨row, hr⟩ := hs₁.activeInfo_none (hk₁.ident t o ho) h₁.symm
      obtain ⟨row', hr'⟩ := (path_kept hp₁ hcs).archived t row hr
      cases hr'.symm.trans (hs₂.archivedInfo_none (hk₂.ident t o ho) h₂.symm)
  | ok resp =>
    rcases h with hK | hK
    · obtain ⟨m, m', hi⟩ := issued_of_history [_] (L := []) hq (hlen []) hK
      obtain ⟨bs₁, hp₁, hk₁, hs₁, hv₁⟩ := issued_state hp hi rfl
      simp only [Answered]
      apply During.of_issued hi
      exact hs₁.activeInfo_some (hk₁.ident t o ho) (issued_tasks hi hv₁).symm
    · obtain ⟨m, m', hi⟩ := issued_of_history [_] hq (hlen [_]) hK
      obtain ⟨bs₁, hp₁, hk₁, hs₁, hv₁⟩ := issued_state hp hi rfl
      simp only [Answered]
      apply During.of_issued hi
      exact hs₁.archivedInfo_some (hk₁.ident t o ho) (issued_tasks hi hv₁).symm

/-- The row of a task as `find_task_by_uuid` returns it. -/
def stored (db : Db) (t : TaskId) : Option Db.StoredTask :=
  ((db.activeTasks.find t).map (.active t)).or ((db.archivedTasks.find t).map (.archived t))

theorem findTask_answered
    (hp : Path (Sessions.step system) (fun _ _ => True) (initial db clock) bs s)
    (hq : Path (Sessions.step system) (fun _ _ => True) s as s')
    (ho : s.shared.txns.committed.ident t = some o) (h₀ : history i s.log = [])
    (h : Service.FoundTask o.uuid (history i s'.log) r) :
    Answered s s' as i (fun found db => stored db t = some found) r := by
  have hlen : ∀ L : History, (history i s.log).length ≤ L.length := by
    intro L
    rw [h₀]
    exact Nat.zero_le _
  cases r with
  | error e =>
    rcases h with ⟨q, K', hK⟩ | hK
    · obtain ⟨m, m', hi⟩ := issued_of_history [] hq (hlen K') hK
      obtain ⟨before, after, fault, -, -, -, -, -, hx⟩ := hi.run
      exact not_found_ne (exec_select_error hx)
    · obtain ⟨m₁, m₁', m₂, m₂', hi₁, hi₂, cs, hcs⟩ := issued_twice [] hq (hlen []) hK
      obtain ⟨bs₁, hp₁, hk₁, hs₁, hv₁⟩ := issued_state hp hi₁ rfl
      obtain ⟨bs₂, hp₂, hk₂, hs₂, hv₂⟩ := issued_state hp hi₂ rfl
      have h₁ := issued_select hi₁ hv₁
      have h₂ := issued_select hi₂ hv₂
      obtain ⟨row, hr⟩ := Db.Sound.activeByUuid_none (hk₁.ident t o ho) h₁.symm
      obtain ⟨row', hr'⟩ := (path_kept hp₁ hcs).archived t row hr
      cases hr'.symm.trans (hs₂.archivedByUuid_none (hk₂.ident t o ho) h₂.symm)
  | ok found =>
    cases found with
    | active id task =>
      obtain ⟨m, m', hi⟩ := issued_of_history [] (L := []) hq (hlen []) h
      obtain ⟨bs₁, hp₁, hk₁, hs₁, hv₁⟩ := issued_state hp hi rfl
      obtain ⟨rfl, hf⟩ := hs₁.activeByUuid_some (hk₁.ident t o ho) (issued_select hi hv₁).symm
      simp only [Answered]
      apply During.of_issued hi
      rw [stored, hf]
      rfl
    | archived id task =>
      obtain ⟨m, m', hi⟩ := issued_of_history [] hq (hlen [_]) h
      obtain ⟨bs₁, hp₁, hk₁, hs₁, hv₁⟩ := issued_state hp hi rfl
      obtain ⟨rfl, hf⟩ := hs₁.archivedByUuid_some (hk₁.ident t o ho) (issued_select hi hv₁).symm
      simp only [Answered]
      apply During.of_issued hi
      rw [stored, hs₁.active_none hf, hf]
      rfl

end

namespace Demo

/-- The task is archived between the start of a lookup and its first read. -/
def archiving : List (Act Call Chance Env) :=
  .call (.getTaskByUuid 0) :: .call (.userCancelTask 1 0) :: steps 2 7 ++ steps 1 3

def submittedTask (s : State) : Bool :=
  s.shared.txns.committed.ident 1 = some ⟨1, 1, 1, 0⟩ && s.pool.length = 1

def gets (found : Option (Thread Cmd Cmd.Resp Call (Except Error Reply))) : Bool :=
  match found with
  | some ⟨.getTaskByUuid uuid, _⟩ => uuid = 0
  | _ => false

def gotCancelled (r : Option (Except Error Reply)) : Bool :=
  match r with
  | some (.ok (.task resp)) => resp.info.state = .cancelled
  | _ => false

theorem of_gets (h : gets found = true) : ∃ prog, found = some ⟨.getTaskByUuid 0, prog⟩ := by
  unfold gets at h
  split at h
  next uuid prog =>
    obtain rfl := of_decide_eq_true h
    exact ⟨prog, rfl⟩
  next => cases h

theorem of_gotCancelled (h : gotCancelled r = true) :
    ∃ resp, r = some (.ok (.task resp)) ∧ resp.info.state = .cancelled := by
  unfold gotCancelled at h
  split at h
  next resp => exact ⟨resp, rfl, of_decide_eq_true h⟩
  next => cases h

end Demo

end Tasks
end Mitosis
