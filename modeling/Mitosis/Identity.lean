import Mitosis.Proof.Tracked

namespace Mitosis
set_option autoImplicit true

/-- The task with this id is in exactly one of the two tables, and it is the one of the row. -/
def Db.located (db : Db) (t : TaskId) (o : Ident) : Prop :=
  (∃ task, db.activeTasks.find t = some task ∧ task.ident = o ∧ db.archivedTasks.find t = none) ∨
    ∃ task, db.archivedTasks.find t = some task ∧ task.ident = o ∧ db.activeTasks.find t = none

theorem Db.Sound.located {db : Db} (h : db.Sound) (ho : db.ident t = some o) : db.located t o := by
  cases hf : db.activeTasks.find t with
  | some task =>
    rw [ident_active hf] at ho
    exact .inl ⟨task, hf, Option.some.inj ho, h.apart t task hf⟩
  | none =>
    rw [ident_archived hf] at ho
    obtain ⟨task, ht, he⟩ := Option.map_eq_some_iff.1 ho
    exact .inr ⟨task, ht, he, hf⟩

namespace Tasks

/-- In every run each task that was inserted is in exactly one of the tables, as it was inserted,
and the tables taken together are consistent. -/
theorem task_identity (db : Db) (clock : Instant) (as : List (Act Call Chance Env)) (s : State)
    (hp : Path (Sessions.step system) (fun _ _ => True) (initial db clock) as s) :
    (∀ i k task id row, ⟨i, k, .insertTask task, .ok (id, row)⟩ ∈ s.log →
      s.shared.txns.committed.located id task.ident) ∧ s.shared.txns.committed.Sound := by
  have h := tracked hp
  refine ⟨?_, h.sound⟩
  intro i k task id row hm
  exact h.sound.located (h.shown _ hm id task.ident rfl)

namespace Demo

def db : Db where
  users := Table.empty.set 1 ⟨"u", .active⟩
  groups := Table.empty.set 1 ⟨"g", 0, .active, 0, 1000, 0⟩
  userGroup := Table.empty.set (1, 1) .admin
  workers := Table.empty.set 1 ⟨9, 1, [], [], 0, 0, .normal, 0, none⟩
  groupWorker := Table.empty.set (1, 1) .write
  activeTasks := .empty
  archivedTasks := .empty
  artifacts := .empty
  workerSeq := 2
  taskSeq := 1

def spec : TaskSpec := ⟨["true"], [], [], false, none⟩

def req : SubmitTaskReq := ⟨"g", [], [], 10, 0, spec⟩

def steps (i n : Nat) : List (Act Call Chance Env) := List.replicate n (.step i ⟨none, some 1⟩)

def submitted : List (Act Call Chance Env) := .call (.userSubmitTask 1 req) :: steps 0 6

def cancelled : List (Act Call Chance Env) :=
  submitted ++ .call (.userCancelTask 1 0) :: steps 1 8

def inserts (e : Event) : Bool :=
  match e with
  | ⟨_, _, .insertTask _, .ok (id, _)⟩ => id = 1
  | _ => false

theorem of_inserts (h : inserts e = true) :
    ∃ i k task row, e = ⟨i, k, .insertTask task, .ok (1, row)⟩ := by
  unfold inserts at h
  split at h
  next i k task id row =>
    obtain rfl := of_decide_eq_true h
    exact ⟨i, k, task, row, rfl⟩
  next => cases h

end Demo

open Demo in
/-- The task is archived, with its number. -/
theorem cancelled_identity : ∃ s row, Path (Sessions.step system) (fun _ _ => True)
    (initial Demo.db 0) cancelled s ∧ s.shared.txns.committed.archivedTasks.find 1 = some row ∧
    1 ≤ row.taskId ∧ s.shared.txns.committed.activeTasks.find 1 = none := by
  have hrun : (Path.follow (Sessions.step system) (fun _ _ => true) (initial Demo.db 0)
      cancelled).any (fun s => s.log.any inserts &&
        (s.shared.txns.committed.archivedTasks.find 1).isSome) = true := by decide
  obtain ⟨s, hp, hs⟩ := Path.of_follow_any hrun
  have hp' : Path (Sessions.step system) (fun _ _ => True) (initial Demo.db 0) cancelled s :=
    hp.mono fun _ _ _ => trivial
  rw [Bool.and_eq_true, List.any_eq_true, Option.isSome_iff_exists] at hs
  obtain ⟨⟨e, he, hi⟩, row, hr⟩ := hs
  obtain ⟨i, k, task, row', rfl⟩ := of_inserts hi
  obtain ⟨hloc, hsound⟩ := task_identity Demo.db 0 cancelled s hp'
  rcases hloc i k task 1 row' he with ⟨-, -, -, hn⟩ | ⟨row'', hr', hid, hn⟩
  · rw [hr] at hn
    cases hn
  · have ho := Db.ident_archived hn
    rw [hr] at ho
    obtain ⟨-, -, hone, -⟩ := hsound.counted 1 row.ident ho
    exact ⟨s, row, hp', hr, hone, hn⟩

end Tasks
end Mitosis

