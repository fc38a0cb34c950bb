import Mitosis.Dispatcher
import Mitosis.Lib.Refinement

namespace Mitosis
set_option autoImplicit true

/-- What the dispatcher stands for: the registered workers, each with the priorities of its
tasks. -/
abbrev QueueMap := WorkerId → Option (TaskId → Option Int)

namespace QueueMap

def empty : QueueMap := fun _ => none

def registerWorker (m : QueueMap) (w : WorkerId) : QueueMap :=
  Function.update m w (some ((m w).getD fun _ => none))

def unregisterWorker (m : QueueMap) (w : WorkerId) : QueueMap := Function.update m w none

def addTask (m : QueueMap) (w : WorkerId) (t : TaskId) (p : Int) : QueueMap :=
  Function.update m w ((m w).map fun q => Function.update q t (some p))

def addTasks (m : QueueMap) (w : WorkerId) (ts : List (TaskId × Int)) : QueueMap :=
  ts.foldl (fun m e => m.addTask w e.1 e.2) m

def batchAddTask (m : QueueMap) (ws : List WorkerId) (t : TaskId) (p : Int) : QueueMap :=
  ws.foldl (fun m w => m.addTask w t p) m

def batchAddTasks (m : QueueMap) (ws : List WorkerId) (ts : List (TaskId × Int)) : QueueMap :=
  ws.foldl (fun m w => m.addTasks w ts) m

def removeTask (m : QueueMap) (t : TaskId) : QueueMap :=
  fun w => (m w).map fun q => Function.update q t none

/-- A fetch for `w` yields `pick` and leaves `m'`. -/
structure Fetches (m : QueueMap) (w : WorkerId) (pick : Option TaskId) (m' : QueueMap) : Prop where
  none_iff : pick = none ↔ m w = none ∨ m w = some fun _ => none
  maximal : ∀ t, pick = some t → ∃ q p, m w = some q ∧ q t = some p ∧
    (∀ t' p', q t' = some p' → p' ≤ p) ∧ m' w = some (Function.update q t none)
  kept : pick = none → m' w = m w
  others : ∀ w', w' ≠ w → m' w' = m w'

theorem Fetches.none {m : QueueMap} (h : m w = none ∨ m w = some fun _ => none) :
    m.Fetches w none m := by
  refine ⟨iff_of_true rfl h, ?_, fun _ => rfl, fun _ _ => rfl⟩
  intro t ht
  cases ht

/-- What an op does to the map, and what it answers. -/
def Handles (m : QueueMap) (e : TaskDispatcherOp × Option TaskId) (m' : QueueMap) : Prop :=
  match e.1 with
  | .registerWorker w => m' = m.registerWorker w
  | .unregisterWorker w => m' = m.unregisterWorker w
  | .addTask w t p => m' = m.addTask w t p
  | .addTasks w ts => m' = m.addTasks w ts
  | .batchAddTask ws t p => m' = m.batchAddTask ws t p
  | .batchAddTasks ws ts => m' = m.batchAddTasks ws ts
  | .removeTask t => m' = m.removeTask t
  | .fetchTask w _ => m.Fetches w e.2 m'

structure Finite (m : QueueMap) : Prop where
  workers : {w | (m w).isSome = true}.Finite
  tasks : ∀ w q, m w = some q → {t | (q t).isSome = true}.Finite

end QueueMap

namespace TaskDispatcher
variable (d : TaskDispatcher)

def new : TaskDispatcher := ⟨.empty⟩

def queues : QueueMap := fun w => (d.workers.find w).map fun worker t => worker.find t

def answer (x : Incoming) : Option TaskId :=
  (d.handleOp x.op x.pick true).reply.bind Prod.snd

/-- `handle_op` over a sequence of ops. -/
def machine : Machine TaskDispatcher Incoming (TaskDispatcherOp × Option TaskId) where
  accepts d x := d.admits x.op x.pick
  step d x := (d.handleOp x.op x.pick x.received).dispatcher
  label d x := (x.op, d.answer x)

theorem queues_registerWorker (w : WorkerId) :
    (d.registerWorker w).queues = d.queues.registerWorker w := by
  funext w'
  simp only [queues, registerWorker, QueueMap.registerWorker, Table.find_set, Function.update_apply]
  split
  · cases d.workers.find w <;> rfl
  · rfl

theorem queues_unregisterWorker (w : WorkerId) :
    (d.unregisterWorker w).queues = d.queues.unregisterWorker w := by
  funext w'
  simp only [queues, unregisterWorker, QueueMap.unregisterWorker, Table.find_erase,
    Function.update_apply]
  split <;> rfl

theorem queues_addTask (w : WorkerId) (t : TaskId) (p : Int) :
    (d.addTask w t p).queues = d.queues.addTask w t p := by
  funext w'
  simp only [queues, addTask, QueueMap.addTask, Table.find_update, Function.update_apply]
  split
  next hw =>
    subst hw
    cases d.workers.find w' with
    | none => rfl
    | some q =>
      simp only [Option.map_some, Option.some.injEq]
      funext t'
      rw [Table.find_set, Function.update_apply]
  next => rfl

theorem queues_addTasks (w : WorkerId) (ts : List (TaskId × Int)) :
    (d.addTasks w ts).queues = d.queues.addTasks w ts := by
  induction ts generalizing d with
  | nil =>
    funext w'
    simp only [queues, addTasks, QueueMap.addTasks, List.foldl_nil, Table.find_update]
    split
    · exact congrArg _ Option.map_id'
    · rfl
  | cons e ts ih =>
    have hstep : (d.addTasks w (e :: ts)).queues = ((d.addTask w e.1 e.2).addTasks w ts).queues := by
      funext w'
      simp only [queues, addTasks, addTask, List.foldl_cons, Table.find_update]
      split
      · cases d.workers.find w' <;> rfl
      · rfl
    rw [hstep, ih, queues_addTask]
    rfl

theorem queues_batchAddTask (ws : List WorkerId) (t : TaskId) (p : Int) :
    (d.batchAddTask ws t p).queues = d.queues.batchAddTask ws t p := by
  induction ws generalizing d with
  | nil => rfl
  | cons w ws ih =>
    rw [batchAddTask, List.foldl_cons]
    exact (ih _).trans (congrArg (·.batchAddTask ws t p) (d.queues_addTask w t p))

theorem queues_batchAddTasks (ws : List WorkerId) (ts : List (TaskId × Int)) :
    (d.batchAddTasks ws ts).queues = d.queues.batchAddTasks ws ts := by
  induction ws generalizing d with
  | nil => rfl
  | cons w ws ih =>
    rw [batchAddTasks, List.foldl_cons]
    exact (ih _).trans (congrArg (·.batchAddTasks ws ts) (d.queues_addTasks w ts))

theorem queues_removeTask (t : TaskId) : (d.removeTask t).queues = d.queues.removeTask t := by
  funext w
  simp only [queues, removeTask, QueueMap.removeTask, Table.find_updateWhere, if_true, Option.map_map]
  congr 1
  funext q t'
  simp only [Function.comp_apply, Table.find_erase, Function.update_apply]

theorem queues_unregistered (h : d.workers.find w = none) : d.queues w = none := by
  rw [queues, h, Option.map_none]

theorem queues_registered (h : d.workers.find w = some q) : d.queues w = some q.find := by
  rw [queues, h, Option.map_some]

theorem isEmpty_iff (q : TaskQueue) : q.rows.isEmpty = true ↔ q.find = fun _ => none := by
  rw [List.isEmpty_iff]
  constructor
  · intro h
    funext t
    rw [Table.find, h, List.lookup_nil]
  · intro h
    apply List.eq_nil_iff_forall_not_mem.2
    intro e he
    have hf := Table.mem_rows.1 (show (e.1, e.2) ∈ q.rows from he)
    rw [h] at hf
    cases hf

theorem pops_some {q : TaskQueue} (h : q.pops (some t) = true) :
    ∃ p, q.find t = some p ∧ ∀ t' p', q.find t' = some p' → p' ≤ p := by
  obtain ⟨p, hp, ha⟩ := (Option.any_eq_true _ _).1 h
  refine ⟨p, hp, ?_⟩
  intro t' p' hf
  exact of_decide_eq_true (List.all_eq_true.1 ha (t', p') (Table.mem_rows.2 hf))

theorem fetchTask_fetches {w : WorkerId} {pick : Option TaskId} (h : d.picks w pick = true) :
    d.queues.Fetches w (d.fetchTask w pick).2 (d.fetchTask w pick).1.queues := by
  cases hq : d.workers.find w with
  | none =>
    have hd : d.fetchTask w pick = (d, none) := by
      unfold fetchTask
      rw [hq]
    rw [hd]
    exact .none (.inl (d.queues_unregistered hq))
  | some q =>
    simp only [picks, hq, Option.elim_some] at h
    cases pick with
    | none =>
      have hd : d.fetchTask w none = (d, none) := by
        unfold fetchTask
        rw [hq]
      rw [hd]
      apply QueueMap.Fetches.none
      right
      rw [d.queues_registered hq, (isEmpty_iff q).1 h]
    | some t =>
      have hd : d.fetchTask w (some t) = (⟨d.workers.set w (q.erase t)⟩, some t) := by
        unfold fetchTask
        rw [hq]
      rw [hd]
      obtain ⟨p, hp, hmax⟩ := pops_some h
      have hw := d.queues_registered hq
      refine ⟨iff_of_false (Option.some_ne_none t) ?_, ?_, ?_, ?_⟩
      · rw [hw]
        rintro (hn | he)
        · cases hn
        · rw [congrFun (Option.some.inj he) t] at hp
          cases hp
      · intro t' ht
        obtain rfl := Option.some.inj ht
        refine ⟨q.find, p, hw, hp, hmax, ?_⟩
        simp only [queues, Table.find_set_self, Option.map_some, Option.some.injEq]
        funext t'
        rw [Table.find_erase, Function.update_apply]
      · intro ht
        cases ht
      · intro w' hw'
        simp only [queues, Table.find_set_ne _ _ hw']

theorem handleOp_handles {x : Incoming} (h : d.admits x.op x.pick = true) :
    d.queues.Handles (x.op, d.answer x) (d.handleOp x.op x.pick x.received).dispatcher.queues := by
  obtain ⟨op, pick, received⟩ := x
  cases op with
  | registerWorker w => exact d.queues_registerWorker w
  | unregisterWorker w => exact d.queues_unregisterWorker w
  | addTask w t p => exact d.queues_addTask w t p
  | addTasks w ts => exact d.queues_addTasks w ts
  | batchAddTask ws t p => exact d.queues_batchAddTask ws t p
  | batchAddTasks ws ts => exact d.queues_batchAddTasks ws ts
  | removeTask t => exact d.queues_removeTask t
  | fetchTask w tx =>
    have hf := d.fetchTask_fetches h
    cases received <;> exact hf

theorem queues_finite : d.queues.Finite := by
  constructor
  · apply d.workers.finite_find.subset
    intro w hw
    change (d.queues w).isSome = true at hw
    rwa [queues, Option.isSome_map] at hw
  · intro w q hq
    obtain ⟨worker, hf, rfl⟩ := Option.map_eq_some_iff.1 hq
    exact worker.finite_find

theorem exists_pick (w : WorkerId) : ∃ pick, d.picks w pick = true := by
  cases hq : d.workers.find w with
  | none => exact ⟨none, by simp only [picks, hq, Option.elim_none, decide_true]⟩
  | some q =>
    simp only [picks, hq, Option.elim_some]
    cases hr : q.rows.isEmpty with
    | true => exact ⟨none, hr⟩
    | false =>
      have hne : q.rows.toFinset.Nonempty := by
        rw [List.toFinset_nonempty_iff]
        intro he
        rw [he] at hr
        cases hr
      obtain ⟨e, he, hmax⟩ := Finset.exists_max_image q.rows.toFinset Prod.snd hne
      have hf : q.find e.1 = some e.2 := Table.mem_rows.1 (List.mem_toFinset.1 he)
      refine ⟨some e.1, ?_⟩
      rw [TaskQueue.pops, hf, Option.any_some, List.all_eq_true]
      intro e' he'
      exact decide_eq_true (hmax e' (List.mem_toFinset.2 he'))

/-- The dispatcher refines the map over every sequence of ops. -/
theorem refines_map (xs : List Incoming) (h : machine.acceptsAll new xs = true) :
    Steps QueueMap.Handles .empty (machine.labels new xs) (machine.after new xs).queues ∧
      (machine.after new xs).queues.Finite ∧
      ∀ w, ∃ pick, (machine.after new xs).picks w pick = true := by
  have hstep : ∀ d i, machine.accepts d i = true →
      QueueMap.Handles d.queues (machine.label d i) (machine.step d i).queues :=
    fun d _ hx => d.handleOp_handles hx
  exact ⟨machine.refines hstep xs new h, queues_finite _, exists_pick _⟩

namespace Demo

/-- A worker that registers twice, a task queued again with another priority, and a fetch. -/
def ops : List Incoming :=
  [⟨.registerWorker 1, none, true⟩, ⟨.batchAddTasks [1, 2, 1] [(7, 0), (8, 1), (7, 2)], none, true⟩,
    ⟨.registerWorker 1, none, true⟩, ⟨.fetchTask 1 0, some 7, true⟩, ⟨.fetchTask 2 1, none, true⟩,
    ⟨.removeTask 8, none, true⟩, ⟨.fetchTask 1 2, none, true⟩]

end Demo

theorem refines_map_ops :
    machine.acceptsAll new Demo.ops = true ∧
      Steps QueueMap.Handles .empty (machine.labels new Demo.ops)
        (machine.after new Demo.ops).queues :=
  ⟨by decide, (refines_map Demo.ops (by decide)).1⟩

end TaskDispatcher
end Mitosis
