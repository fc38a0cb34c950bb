import Mitosis.Proof.ArchivedRows
import Mitosis.Run

namespace Mitosis
set_option autoImplicit true

/-- The columns of a task that stay as they were inserted. -/
structure Origin where
  groupId : GroupId
  uuid : Uuid
  upstreamTaskUuid : Option Uuid

def ActiveTask.origin (task : ActiveTask) : Origin :=
  ⟨task.groupId, task.uuid, task.upstreamTaskUuid⟩

def ArchivedTask.origin (task : ArchivedTask) : Origin :=
  ⟨task.groupId, task.uuid, task.upstreamTaskUuid⟩

def Db.origin (db : Db) (t : TaskId) : Option Origin :=
  ((db.activeTasks.find t).map ActiveTask.origin).or
    ((db.archivedTasks.find t).map ArchivedTask.origin)

/-- Every id in the tables was drawn from a sequence, and no two tasks share a uuid. -/
structure Db.Keyed (db : Db) : Prop where
  tasks : ∀ t, (db.origin t).isSome = true → t < db.taskSeq
  disjoint : ∀ t task, db.activeTasks.find t = some task → db.archivedTasks.find t = none
  uuids : ∀ t t' o o', db.origin t = some o → db.origin t' = some o' → o.uuid = o'.uuid → t = t'
  workers : ∀ w worker, db.workers.find w = some worker → w < db.workerSeq
  roles : ∀ g w role, db.groupWorker.find (g, w) = some role → w < db.workerSeq

def Write.grounded (db : Db) : Write → Prop
  | .commitTask _ t archived _ => db.origin t = some archived.origin
  | .insertTask task => ∀ t o, db.origin t = some o → o.uuid ≠ task.uuid
  | _ => True

namespace Db.Keyed
variable {db db' : Db} {q : Write} {r : q.Ret}

theorem origin_active (hf : db.activeTasks.find t = some task) :
    db.origin t = some task.origin := by
  simp only [origin, hf, Option.map_some, Option.some_or]

theorem origin_archived (h : db.Keyed) (hf : db.archivedTasks.find t = some task) :
    db.origin t = some task.origin := by
  cases ha : db.activeTasks.find t with
  | none => simp only [origin, ha, hf, Option.map_none, Option.map_some, Option.none_or]
  | some task' =>
    have hn := h.disjoint t task' ha
    rw [hf] at hn
    cases hn

theorem findPendingTask_eq (hk : db.Keyed) (hf : db.activeTasks.find t = some task)
    (hst : task.state = .pending) : db.findPendingTask task.uuid = some (t, task) := by
  cases h : db.findPendingTask task.uuid with
  | none =>
    have hn := Table.findWhere_none h hf
    simp only [hst, and_self, decide_true, reduceCtorEq] at hn
  | some row =>
    obtain ⟨hf', hu, -⟩ := findPendingTask_some h
    obtain rfl := hk.uuids row.1 t _ _ (origin_active hf') (origin_active hf) hu
    obtain rfl := Option.some.inj (hf.symm.trans hf')
    rfl

theorem origin_write (h : db.Keyed) (hq : q.run clock db = .ok (r, db'))
    (hg : q.grounded db) (ho : db.origin t = some o) : db'.origin t = some o := by
  have hlt : t < db.taskSeq := h.tasks t (by rw [ho]; rfl)
  have hc := q.taskChange hq t
  cases hf : db.activeTasks.find t with
  | some task =>
    obtain rfl := Option.some.inj ((origin_active hf).symm.trans ho)
    cases hf' : db'.activeTasks.find t with
    | some task' =>
      rw [origin_active hf']
      rw [hf, hf'] at hc
      cases hc with
      | inserted ht => exact (Nat.ne_of_lt hlt ht).elim
      | _ => rfl
    | none =>
      rw [origin, hf', Option.map_none, Option.none_or]
      rcases Write.archives hq hf hf' with ⟨ha, -⟩ | ⟨w, archived, now, rfl, ha⟩
      · rw [ha]
        rfl
      · rw [ha, Option.map_some, ← hg, ho]
  | none =>
    have ha : db.archivedTasks.find t ≠ none := by
      intro hn
      rw [origin, hf, hn] at ho
      cases ho
    have hf' : db'.activeTasks.find t = none := by
      rw [hf] at hc
      generalize db'.activeTasks.find t = row at hc
      cases hc with
      | inserted ht => exact (Nat.ne_of_lt hlt ht).elim
      | same | committed => rfl
    rw [origin, hf, Option.map_none, Option.none_or] at ho
    rw [origin, hf', Option.map_none, Option.none_or, ← ho]
    have har := q.archivedChange hq t
    generalize db.archivedTasks.find t = row at har ha
    generalize db'.archivedTasks.find t = row' at har
    cases har with
    | same | touched => rfl
    | committed | cancelled => exact (ha rfl).elim

/-- A task that is found after a write was found before, or was inserted by it. -/
theorem origin_new (h : db.Keyed) (hq : q.run clock db = .ok (r, db')) (hg : q.grounded db)
    (ho : db'.origin t = some o) :
    db.origin t = some o ∨ ∃ task, q = .insertTask task ∧ t = db.taskSeq ∧ o = task.origin := by
  cases hd : db.origin t with
  | some o' =>
    rw [h.origin_write hq hg hd] at ho
    exact .inl ho
  | none =>
    have hn := Option.or_eq_none_iff.1 hd
    have ha := Option.map_eq_none_iff.1 hn.1
    have hc := q.taskChange hq t
    rw [ha] at hc
    cases hf : db'.activeTasks.find t with
    | some task =>
      rw [hf] at hc
      cases hc with
      | inserted ht =>
        rw [origin_active hf] at ho
        exact .inr ⟨_, rfl, ht, (Option.some.inj ho).symm⟩
    | none =>
      have har := q.archivedChange hq t
      rw [Option.map_eq_none_iff.1 hn.2] at har
      cases hf' : db'.archivedTasks.find t with
      | none =>
        rw [origin, hf, hf'] at ho
        cases ho
      | some task =>
        rw [hf'] at har
        cases har with
        | committed =>
          rw [hg] at hd
          cases hd
        | cancelled hf =>
          rw [ha] at hf
          cases hf

theorem write (h : db.Keyed) (hq : q.run clock db = .ok (r, db')) (hg : q.grounded db) :
    db'.Keyed where
  tasks t ht := by
    obtain ⟨o, ho⟩ := Option.isSome_iff_exists.1 ht
    rw [(Write.sequences hq).1]
    rcases h.origin_new hq hg ho with ho | ⟨task, rfl, rfl, -⟩
    · exact Nat.lt_add_right _ (h.tasks t (by rw [ho]; rfl))
    · exact Nat.lt_succ_self _
  disjoint t task hf := by
    have har := q.archivedChange hq t
    cases hf' : db'.archivedTasks.find t with
    | none => rfl
    | some archived =>
      have hc := q.taskChange hq t
      rw [hf] at hc
      rw [hf'] at har
      have hold : db.archivedTasks.find t ≠ none := by
        generalize db.archivedTasks.find t = row at har
        cases har with
        | same | touched => exact nofun
        | committed _ hn | cancelled _ _ _ hn =>
          rw [hf] at hn
          cases hn
      cases hd : db.activeTasks.find t with
      | some task' => exact (hold (h.disjoint t task' hd)).elim
      | none =>
        rw [hd] at hc
        cases hc with
        | inserted ht =>
          obtain ⟨archived', hd'⟩ := Option.ne_none_iff_exists'.1 hold
          have hlt := h.tasks t (by rw [h.origin_archived hd']; rfl)
          exact (Nat.ne_of_lt hlt ht).elim
  uuids t t' o o' ho ho' hu := by
    rcases h.origin_new hq hg ho with hd | ⟨task, rfl, rfl, rfl⟩
    · rcases h.origin_new hq hg ho' with hd' | ⟨task, rfl, rfl, rfl⟩
      · exact h.uuids t t' o o' hd hd' hu
      · exact (hg t o hd hu).elim
    · rcases h.origin_new hq hg ho' with hd' | ⟨task', _, rfl, -⟩
      · exact (hg t' o' hd' hu.symm).elim
      · rfl
  workers w worker hf := by
    rw [(Write.sequences hq).2]
    have hc := q.workerChange hq w
    rw [hf] at hc
    cases hd : db.workers.find w with
    | some worker' => exact Nat.lt_add_right _ (h.workers w worker' hd)
    | none =>
      rw [hd] at hc
      cases hc with
      | inserted hw =>
        subst hw
        exact Nat.lt_succ_self _
  roles g w role hf := by
    rw [(Write.sequences hq).2]
    refine Nat.lt_add_right _ ?_
    have hc := q.roleChange hq g w
    rw [hf] at hc
    generalize hd : db.groupWorker.find (g, w) = row at hc
    cases hc with
    | same => exact h.roles g w role hd
    | inserted hs | upserted hs =>
      obtain ⟨worker, hs⟩ := Option.isSome_iff_exists.1 hs
      exact h.workers w worker hs

end Db.Keyed
end Mitosis
