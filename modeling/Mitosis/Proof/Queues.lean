import Mitosis.Dispatcher

namespace Mitosis
set_option autoImplicit true

namespace TaskDispatcherOp

def adds (w : WorkerId) (t : TaskId) : TaskDispatcherOp → Option Int
  | .addTask w' t' p => if w' = w ∧ t' = t then some p else none
  | .addTasks w' ts => if w' = w then ts.reverse.lookup t else none
  | .batchAddTask ws t' p => if w ∈ ws ∧ t' = t then some p else none
  | .batchAddTasks ws ts => if w ∈ ws then ts.reverse.lookup t else none
  | _ => none

def drops (w : WorkerId) (t : TaskId) : TaskDispatcherOp → Bool
  | .unregisterWorker w' => w = w'
  | .removeTask t' => t = t'
  | _ => false

end TaskDispatcherOp

namespace TaskDispatcher
variable {w : WorkerId} {t : TaskId}

def registered (d : TaskDispatcher) (w : WorkerId) : Bool := (d.workers.find w).isSome

/-- The queues after the ops of a channel, where the fetches among them take `picks`. -/
def handleOps (d : TaskDispatcher) : List TaskDispatcherOp → List (Option TaskId) → TaskDispatcher
  | [], _ => d
  | op :: ops, picks =>
    (d.handleOp op (picks.head?.getD none) true).dispatcher.handleOps ops picks.tail

theorem handleOps_append (d : TaskDispatcher) (ops ops' : List TaskDispatcherOp)
    (picks : List (Option TaskId)) : d.handleOps (ops ++ ops') picks =
      (d.handleOps ops picks).handleOps ops' (picks.drop ops.length) := by
  induction ops generalizing d picks with
  | nil => rfl
  | cons op ops ih =>
    simp only [List.cons_append, handleOps, ih, List.length_cons]
    cases picks with
    | nil => simp only [List.tail_nil, List.drop_nil]
    | cons => rfl

theorem queued_unregistered {d : TaskDispatcher} (h : d.registered w = false) (t : TaskId) :
    d.queued w t = none := by
  simp only [registered, Option.isSome_eq_false_iff, Option.isNone_iff_eq_none] at h
  simp only [queued, h, Option.bind_none]

theorem registered_of_queued {d : TaskDispatcher} (h : d.queued w t = some p) :
    d.registered w = true := by
  cases hr : d.registered w with
  | true => rfl
  | false =>
    rw [queued_unregistered hr] at h
    cases h

theorem registered_addTasks (d : TaskDispatcher) (w w' : WorkerId) (ts : List (TaskId × Int)) :
    (d.addTasks w ts).registered w' = d.registered w' := find_isSome_addTasks d w w' ts

theorem registered_handleOp (d : TaskDispatcher) (op : TaskDispatcherOp) (pick : Option TaskId)
    (w : WorkerId) : (d.handleOp op pick true).dispatcher.registered w =
      (decide (op = .registerWorker w) ||
        d.registered w && !decide (op = .unregisterWorker w)) := by
  cases op with
  | registerWorker w' =>
    simp only [handleOp, registered, registerWorker, Table.find_set,
      TaskDispatcherOp.registerWorker.injEq, reduceCtorEq, decide_false, Bool.not_false,
      Bool.and_true]
    by_cases hw : w = w'
    · subst hw
      simp only [if_true, Option.isSome_some, decide_true, Bool.true_or]
    · simp only [hw, if_false, Ne.symm hw, decide_false, Bool.false_or]
  | unregisterWorker w' =>
    simp only [handleOp, registered, unregisterWorker, Table.find_erase,
      TaskDispatcherOp.unregisterWorker.injEq, reduceCtorEq, decide_false, Bool.false_or]
    by_cases hw : w = w'
    · subst hw
      simp only [if_true, Option.isSome_none, decide_true, Bool.not_true, Bool.and_false]
    · simp only [hw, if_false, Ne.symm hw, decide_false, Bool.not_false, Bool.and_true]
  | addTask w' t p =>
    simp only [reduceCtorEq, decide_false, Bool.false_or, Bool.not_false, Bool.and_true]
    exact registered_addTasks d w' w [(t, p)]
  | addTasks w' ts =>
    simp only [reduceCtorEq, decide_false, Bool.false_or, Bool.not_false, Bool.and_true]
    exact registered_addTasks d w' w ts
  | batchAddTask ws t p =>
    simp only [reduceCtorEq, decide_false, Bool.false_or, Bool.not_false, Bool.and_true]
    exact find_isSome_batchAddTask ws d w t p
  | batchAddTasks ws ts =>
    simp only [reduceCtorEq, decide_false, Bool.false_or, Bool.not_false, Bool.and_true]
    exact find_isSome_batchAddTasks ws d w ts
  | removeTask t =>
    simp only [reduceCtorEq, decide_false, Bool.false_or, Bool.not_false, Bool.and_true,
      handleOp, registered, removeTask, Table.find_updateWhere, Option.isSome_map]
  | fetchTask w' tx =>
    simp only [reduceCtorEq, decide_false, Bool.false_or, Bool.not_false, Bool.and_true]
    exact find_isSome_fetchTask d w' w pick

theorem queued_batchAddTasks (ws : List WorkerId) (d : TaskDispatcher) (w : WorkerId)
    (ts : List (TaskId × Int)) (t : TaskId) : (d.batchAddTasks ws ts).queued w t =
      if w ∈ ws ∧ d.registered w = true then (ts.reverse.lookup t).or (d.queued w t)
      else d.queued w t := by
  induction ws generalizing d with
  | nil => simp only [batchAddTasks, List.foldl_nil, List.not_mem_nil, false_and, if_false]
  | cons w' ws ih =>
    rw [batchAddTasks, List.foldl_cons]
    refine (ih _).trans ?_
    rw [queued_addTasks, registered_addTasks, ← registered]
    by_cases hw : w = w'
    · subst hw
      cases d.registered w <;> by_cases hm : w ∈ ws <;>
      simp only [List.mem_cons, hm, or_true, or_false, and_true, and_self, if_true,
        Bool.false_eq_true, and_false, if_false, ← Option.or_assoc, Option.or_self]
    · simp only [List.mem_cons, hw, false_or, false_and, if_false]

theorem queued_fetchTask (d : TaskDispatcher) (w' : WorkerId) (pick : Option TaskId) :
    (d.fetchTask w' pick).1.queued w t =
      if w' = w ∧ pick = some t then none else d.queued w t := by
  unfold fetchTask
  split
  next q t' hq =>
    simp only [queued, Table.find_set]
    by_cases hw : w = w'
    · subst hw
      simp only [if_true, Option.bind_some, Table.find_erase, hq, true_and, Option.some.injEq,
        eq_comm]
    · simp only [hw, if_false, Ne.symm hw, false_and]
  next w₀ p₀ h =>
    split
    next hc =>
      obtain ⟨rfl, rfl⟩ := hc
      cases hq : d.workers.find w' with
      | none => simp only [queued, hq, Option.bind_none]
      | some q => exact (h q t hq rfl).elim
    next => rfl

theorem lookup_single (t t' : TaskId) (p : Int) :
    [(t', p)].reverse.lookup t = if t' = t then some p else none := by
  by_cases ht : t' = t
  · subst ht
    simp only [List.reverse_singleton, List.lookup_cons_self, if_true]
  · simp only [List.reverse_singleton, List.lookup_cons, beq_eq_false_iff_ne.2 (Ne.symm ht),
      List.lookup_nil, ht, if_false]

/-- What an op does to the entry of a task in a worker's queue, unless a fetch takes it. -/
theorem queued_handleOp (d : TaskDispatcher) (op : TaskDispatcherOp) (pick : Option TaskId)
    (hp : ∀ tx, op = .fetchTask w tx → pick ≠ some t) :
    (d.handleOp op pick true).dispatcher.queued w t =
      if op.drops w t then none
      else if d.registered w then (op.adds w t).or (d.queued w t) else d.queued w t := by
  cases op with
  | registerWorker w' =>
    simp only [handleOp, queued_registerWorker, TaskDispatcherOp.drops, TaskDispatcherOp.adds,
      Bool.false_eq_true, if_false, Option.none_or, ite_self]
  | unregisterWorker w' =>
    simp only [handleOp, queued_unregisterWorker, TaskDispatcherOp.drops, TaskDispatcherOp.adds,
      Option.none_or, ite_self, decide_eq_true_eq]
  | addTask w' t' p =>
    simp only [handleOp, addTask_eq_addTasks, queued_addTasks, TaskDispatcherOp.drops,
      TaskDispatcherOp.adds, Bool.false_eq_true, if_false]
    by_cases hw : w = w'
    · subst hw
      simp only [true_and, lookup_single, registered]
    · simp only [hw, Ne.symm hw, false_and, if_false, Option.none_or, ite_self]
  | addTasks w' ts =>
    simp only [handleOp, queued_addTasks, TaskDispatcherOp.drops, TaskDispatcherOp.adds,
      Bool.false_eq_true, if_false]
    by_cases hw : w = w'
    · subst hw
      simp only [true_and, if_true, registered]
    · simp only [hw, Ne.symm hw, false_and, if_false, Option.none_or, ite_self]
  | batchAddTask ws t' p =>
    refine (queued_batchAddTasks ws d w [(t', p)] t).trans ?_
    simp only [TaskDispatcherOp.drops, TaskDispatcherOp.adds, Bool.false_eq_true, if_false]
    by_cases hw : w ∈ ws
    · simp only [hw, true_and, lookup_single]
    · simp only [hw, false_and, if_false, Option.none_or, ite_self]
  | batchAddTasks ws ts =>
    refine (queued_batchAddTasks ws d w ts t).trans ?_
    simp only [TaskDispatcherOp.drops, TaskDispatcherOp.adds, Bool.false_eq_true, if_false]
    by_cases hw : w ∈ ws
    · simp only [hw, true_and, if_true]
    · simp only [hw, false_and, if_false, Option.none_or, ite_self]
  | removeTask t' =>
    simp only [handleOp, queued_removeTask, TaskDispatcherOp.drops, TaskDispatcherOp.adds,
      Option.none_or, ite_self, decide_eq_true_eq]
  | fetchTask w' tx =>
    refine (queued_fetchTask d w' pick).trans ?_
    simp only [TaskDispatcherOp.drops, TaskDispatcherOp.adds, Bool.false_eq_true, if_false,
      Option.none_or, ite_self]
    split
    next hc =>
      obtain ⟨rfl, hpick⟩ := hc
      exact (hp tx rfl hpick).elim
    next => rfl

theorem registered_handleOps {d d' : TaskDispatcher} (h : d.registered w = d'.registered w)
    (ops : List TaskDispatcherOp) (picks picks' : List (Option TaskId)) :
    (d.handleOps ops picks).registered w = (d'.handleOps ops picks').registered w := by
  induction ops generalizing d d' picks picks' with
  | nil => exact h
  | cons op ops ih =>
    refine ih ?_ _ _
    rw [registered_handleOp, registered_handleOp, h]

end TaskDispatcher
end Mitosis
