import Mitosis.Proof.Grounded

namespace Mitosis
set_option autoImplicit true

namespace Event

/-- The update of `fetch_task` that hands out the task. -/
def assigns (t : TaskId) (e : Event) : Bool :=
  match e.2 with
  | ⟨.write (.assignTask _ t' _), .ok (some _)⟩ => t' = t
  | _ => false

/-- The row was set back to Ready without a worker. -/
def freed (task : ActiveTask) : Bool := task.state = .ready ∧ task.assignedWorker = none

def resets (t : TaskId) (e : Event) : Bool :=
  match e.2 with
  | ⟨.write (.pushBackTask _ t' _), .ok task⟩ => t' = t ∧ freed task
  | ⟨.write (.shutdownWorkersByFilter _ _), .ok res⟩ =>
    res.tasksToReassign.any fun e => e.1 = t ∧ freed e.2
  | ⟨.write (.shutdownWorkersByUuids _ _ _), .ok res⟩ =>
    res.1.tasksToReassign.any fun e => e.1 = t ∧ freed e.2
  | _ => false

end Event

/-- The task that the `fetch_task` call of handler `i` returned. -/
def State.fetched (s : State) (i : Nat) : Option TaskId :=
  (s.pool[i]?).bind fun h =>
    match h.call, h.result with
    | .fetchTask _, some (.ok (.task (some r))) => some r.id
    | _, _ => none

/-- The task has been handed out and not been set back. -/
def Held (t : TaskId) (db : Db) : Prop :=
  t < db.taskSeq ∧ ∀ task, db.activeTasks.find t = some task → task.assignedWorker ≠ none

theorem freed_pushedBack (now : Instant) (task : ActiveTask) :
    Event.freed (Db.pushedBack now task) = true := by
  simp only [Event.freed, Db.pushedBack, and_self, decide_true]

theorem Held.write {q : Write} {r : q.Ret} (h : Held t db)
    (hq : q.run clock db = .ok (r, db'))
    (hr : Event.resets t (i, ⟨.write q, .ok r⟩) = false) : Held t db' := by
  refine ⟨?_, fun task' ht => ?_⟩
  · rw [(Write.sequences hq).1]
    exact Nat.lt_add_right _ h.1
  have hc := q.taskChange hq t
  have hf := h.2
  rw [ht] at hc
  generalize hrow : db.activeTasks.find t = row at hc hf
  cases hc with
  | same => exact hf _ rfl
  | inserted hseq => exact (Nat.ne_of_lt h.1 hseq).elim
  | assigned => exact nofun
  | reported | linked | triggered | changed | touched =>
    have hn := hf _ rfl
    exact hn
  | pushedBack =>
    obtain ⟨_, _, hrow, _⟩ := Db.updateTask_ok hq
    simp only [Event.resets, hrow, freed_pushedBack, and_self, decide_true,
      reduceCtorEq] at hr
  | shutByFilter hop ha hw hs =>
    have hm := Db.reassigned_filter hop hrow ha hw hs hq
    simp only [Event.resets, List.any_eq_false] at hr
    exact (hr _ hm (decide_eq_true ⟨rfl, freed_pushedBack _ _⟩)).elim
  | shutByUuids hm ha =>
    have hm := Db.reassigned_uuids hrow hm ha hq
    simp only [Event.resets, List.any_eq_false] at hr
    exact (hr _ hm (decide_eq_true ⟨rfl, freed_pushedBack _ _⟩)).elim

/-- A step that does not set the task back keeps it handed out. -/
theorem Held.step {s s' : State} (h : Held t s.infra.db) (hs : s.step a = some s')
    (hr : ∀ e, s.event a = some e → e.resets t = false) : Held t s'.infra.db := by
  cases State.step_db hs with
  | same hdb => rwa [hdb]
  | accounts _ hdb =>
    rw [hdb]
    exact h
  | write _ _ he hq => exact h.write hq (hr _ he)

theorem Event.eq_of_assigns {e : Event} (h : e.assigns t = true) :
    ∃ w now task, e = (e.1, ⟨.write (.assignTask w t now), .ok (some task)⟩) := by
  obtain ⟨i, e⟩ := e
  simp only [assigns] at h
  split at h
  next w t' now task =>
    obtain rfl := of_decide_eq_true h
    exact ⟨w, now, task, rfl⟩
  next => cases h

/-- The update that hands out a task finds it without a worker, and gives it one. -/
theorem assigns_step {s s' : State} (hk : s.infra.db.Keyed) (hs : s.step a = some s')
    (he : s.event a = some e) (ha : e.assigns t = true) :
    ¬Held t s.infra.db ∧ Held t s'.infra.db := by
  obtain ⟨w, now, r, hw⟩ := Event.eq_of_assigns ha
  rw [hw] at he
  rcases Db.assignTask_ok (State.event_write hs he) with ⟨hr, -⟩ | ⟨task, hf, hn, -, -, hdb⟩
  · cases hr
  have hlt := hk.tasks t (by rw [Db.Keyed.origin_active hf]; rfl)
  refine ⟨fun h => h.2 task hf hn, ?_⟩
  rw [hdb]
  refine ⟨hlt, fun task' hf' => ?_⟩
  simp only [Table.find_update_self, hf, Option.map_some, Option.some.injEq] at hf'
  rw [← hf']
  exact Option.some_ne_none _

/-- After a task is handed out it stays so until it is set back. -/
theorem held_of_path {s : State}
    (hp : Path State.step ok (State.initial accounts timeout clock) as s)
    (hl : (State.initial accounts timeout clock).log as = pre ++ e :: mid)
    (ha : e.assigns t = true) (hmid : ∀ e ∈ mid, e.resets t = false) : Held t s.infra.db := by
  induction hp generalizing mid with
  | nil => cases pre <;> cases hl
  | @snoc as s a s' hp _ hs ih =>
    rw [State.log_snoc hp hs] at hl
    cases he : s.event a with
    | none =>
      rw [he, Option.toList_none, List.append_nil] at hl
      refine (ih hl hmid).step hs fun e he' => ?_
      rw [he] at he'
      cases he'
    | some e' =>
      rw [he, Option.toList_some] at hl
      rcases List.eq_nil_or_concat mid with rfl | ⟨mid, x, rfl⟩
      · obtain ⟨-, hx⟩ := List.append_inj' hl rfl
        obtain ⟨⟩ := hx
        exact (assigns_step (grounded_of_path hp).keyed hs he ha).2
      · rw [List.concat_eq_append, ← List.cons_append, ← List.append_assoc] at hl
        obtain ⟨hl', hx⟩ := List.append_inj' hl rfl
        obtain ⟨⟩ := hx
        rw [List.concat_eq_append] at hmid
        refine (ih hl' fun e he => hmid e (List.mem_append_left _ he)).step hs fun e he' => ?_
        obtain rfl := Option.some.inj (he.symm.trans he')
        exact hmid _ (List.mem_append_right _ (List.mem_singleton_self _))

/-- Between two updates that hand out the same task it was set back. -/
theorem reset_between_assigns {s : State}
    (hp : Path State.step ok (State.initial accounts timeout clock) as s)
    (hl : (State.initial accounts timeout clock).log as = pre ++ x :: (mid ++ y :: post))
    (hx : x.assigns t = true) (hy : y.assigns t = true) : ∃ z ∈ mid, z.resets t = true := by
  by_contra hn
  simp only [not_exists, not_and, Bool.not_eq_true] at hn
  rw [← List.cons_append, ← List.append_assoc] at hl
  obtain ⟨bs, a, s₁, s₂, hp₁, hl₁, he, hs, -⟩ := State.log_split hp hl
  exact (assigns_step (grounded_of_path hp₁).keyed hs he hy).1 (held_of_path hp₁ hl₁ hx hn)

/-- A call of `fetch_task` returns only a task that it handed out itself. -/
theorem assigned_of_fetched {s : State} (ht : Traced log s) (hf : s.fetched i = some t) :
    ∃ x ∈ log, x.1 = i ∧ x.assigns t = true := by
  obtain ⟨h, hi, hf⟩ := Option.bind_eq_some_iff.1 hf
  split at hf
  next w r hc hr =>
    obtain ⟨⟩ := hf
    have hk := ht.knows i h hi
    obtain ⟨call, prog⟩ := h
    subst hc
    cases prog with
    | call => cases hr
    | ret x =>
      cases x with
      | again => cases hr
      | done x =>
        obtain ⟨⟩ := hr
        obtain ⟨w', time, task, -, hm⟩ := hk
        exact ⟨_, mem_history.1 hm, rfl, decide_eq_true rfl⟩
  next => cases hf

theorem two_mem_split {l : List α} (hx : x ∈ l) (hy : y ∈ l) (hne : x ≠ y) :
    (∃ pre mid post, l = pre ++ x :: (mid ++ y :: post)) ∨
      ∃ pre mid post, l = pre ++ y :: (mid ++ x :: post) := by
  obtain ⟨pre, post, rfl⟩ := List.append_of_mem hx
  rcases List.mem_append.1 hy with hy | hy
  · obtain ⟨pre, mid, rfl⟩ := List.append_of_mem hy
    exact .inr ⟨pre, mid, post, List.append_assoc _ _ _⟩
  · rcases List.mem_cons.1 hy with rfl | hy
    · exact (hne rfl).elim
    · obtain ⟨mid, post, rfl⟩ := List.append_of_mem hy
      exact .inl ⟨pre, mid, post, rfl⟩

/-- If two calls of `fetch_task` return the same task, then between the updates that handed
it out a step of the removal of a worker set it back. -/
theorem handed_out_again_after_reset {s : State}
    (hp : Path State.step ok (State.initial accounts timeout clock) as s) (hij : i ≠ j)
    (hi : s.fetched i = some t) (hj : s.fetched j = some t) : ∃ pre x mid y post,
      (State.initial accounts timeout clock).log as = pre ++ x :: (mid ++ y :: post) ∧
      (x.1 = i ∧ y.1 = j ∨ x.1 = j ∧ y.1 = i) ∧
      x.assigns t = true ∧ y.assigns t = true ∧ ∃ z ∈ mid, z.resets t = true := by
  have ht := (grounded_of_path hp).traced
  obtain ⟨x, hx, rfl, hax⟩ := assigned_of_fetched ht hi
  obtain ⟨y, hy, rfl, hay⟩ := assigned_of_fetched ht hj
  rcases two_mem_split hx hy (fun h => hij (congrArg Prod.fst h)) with
    ⟨pre, mid, post, hl⟩ | ⟨pre, mid, post, hl⟩
  · exact ⟨pre, x, mid, y, post, hl, .inl ⟨rfl, rfl⟩, hax, hay,
      reset_between_assigns hp hl hax hay⟩
  · exact ⟨pre, y, mid, x, post, hl, .inr ⟨rfl, rfl⟩, hay, hax,
      reset_between_assigns hp hl hay hax⟩

open RunDemo in
/-- A task is fetched by a worker, set back by its removal, and fetched by another worker. -/
theorem handed_out_again_demo :
    let run := register 0 ++ register 1 ++ submit 2 ++ fetch 3 1 1 ++ unregister 4 1 ++
      fetch 5 2 1
    ∃ s, Path State.step (fun _ _ => True) start run s ∧ s.fetched 3 = some 1 ∧
      s.fetched 5 = some 1 ∧ ∃ pre x mid y post, start.log run = pre ++ x :: (mid ++ y :: post) ∧
        x.assigns 1 = true ∧ y.assigns 1 = true ∧ ∃ z ∈ mid, z.resets 1 = true := by
  intro run
  have hrun : (Path.follow State.step (fun _ _ => true) start run).any
      (fun s => s.fetched 3 = some 1 && s.fetched 5 = some 1) = true := by decide
  obtain ⟨s, hp, hs⟩ := Path.of_follow_any hrun
  simp only [Bool.and_eq_true, decide_eq_true_eq] at hs
  have hp' : Path State.step (fun _ _ => True) start run s := hp.mono fun _ _ _ => trivial
  obtain ⟨pre, x, mid, y, post, hl, -, hx, hy, hz⟩ :=
    handed_out_again_after_reset hp' (by decide) hs.1 hs.2
  exact ⟨s, hp', hs.1, hs.2, pre, x, mid, y, post, hl, hx, hy, hz⟩

end Mitosis
