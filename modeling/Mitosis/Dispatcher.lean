import Mitosis.Entity

namespace Mitosis
set_option autoImplicit true

abbrev TaskQueue := Table TaskId Int

/-- The reply channel of one `FetchTask` op. -/
abbrev Ticket := Nat

inductive TaskDispatcherOp where
  | registerWorker (workerId : WorkerId)
  | unregisterWorker (workerId : WorkerId)
  | addTask (workerId : WorkerId) (taskId : TaskId) (priority : Int)
  | addTasks (workerId : WorkerId) (tasks : List (TaskId × Int))
  | batchAddTask (workerIds : List WorkerId) (taskId : TaskId) (priority : Int)
  | batchAddTasks (workerIds : List WorkerId) (tasks : List (TaskId × Int))
  | removeTask (taskId : TaskId)
  | fetchTask (workerId : WorkerId) (tx : Ticket)
  deriving DecidableEq

/-- A priority queue may pop any item of maximal priority, and nothing only if it is empty. -/
def TaskQueue.pops (q : TaskQueue) : Option TaskId → Bool
  | none => q.rows.isEmpty
  | some t => (q.find t).any fun p => q.rows.all fun e => decide (e.2 ≤ p)

structure TaskDispatcher where
  workers : Table WorkerId TaskQueue

namespace TaskDispatcher

def registerWorker (d : TaskDispatcher) (workerId : WorkerId) : TaskDispatcher :=
  ⟨d.workers.set workerId ((d.workers.find workerId).getD .empty)⟩

def unregisterWorker (d : TaskDispatcher) (workerId : WorkerId) : TaskDispatcher :=
  ⟨d.workers.erase workerId⟩

def addTask (d : TaskDispatcher) (workerId : WorkerId) (taskId : TaskId) (priority : Int) :
    TaskDispatcher :=
  ⟨d.workers.update workerId fun worker => worker.set taskId priority⟩

def addTasks (d : TaskDispatcher) (workerId : WorkerId) (tasks : List (TaskId × Int)) :
    TaskDispatcher :=
  ⟨d.workers.update workerId fun worker =>
    tasks.foldl (fun worker e => worker.set e.1 e.2) worker⟩

def batchAddTask (d : TaskDispatcher) (workerIds : List WorkerId) (taskId : TaskId)
    (priority : Int) : TaskDispatcher :=
  workerIds.foldl (fun d workerId => d.addTask workerId taskId priority) d

def batchAddTasks (d : TaskDispatcher) (workerIds : List WorkerId)
    (tasks : List (TaskId × Int)) : TaskDispatcher :=
  workerIds.foldl (fun d workerId => d.addTasks workerId tasks) d

def removeTask (d : TaskDispatcher) (taskId : TaskId) : TaskDispatcher :=
  ⟨d.workers.updateWhere (fun _ _ => true) fun worker => worker.erase taskId⟩

/-- The pop of `workerId`'s queue may yield `pick`. -/
def picks (d : TaskDispatcher) (workerId : WorkerId) (pick : Option TaskId) : Bool :=
  (d.workers.find workerId).elim (pick = none) fun worker => worker.pops pick

/-- Only the pop for a `FetchTask` op has a choice. -/
def admits (d : TaskDispatcher) (op : TaskDispatcherOp) (pick : Option TaskId) : Bool :=
  match op with
  | .fetchTask w _ => d.picks w pick
  | _ => true

/-- Pop `pick` from the worker's queue, where the tie between items of equal priority was
broken for `pick`. -/
def fetchTask (d : TaskDispatcher) (workerId : WorkerId) (pick : Option TaskId) :
    TaskDispatcher × Option TaskId :=
  match d.workers.find workerId, pick with
  | some worker, some taskId => (⟨d.workers.set workerId (worker.erase taskId)⟩, some taskId)
  | _, _ => (d, none)

/-- What `handle_op` leaves behind: the queues, the reply it sent, and whether `run` stops. -/
structure Handled where
  dispatcher : TaskDispatcher
  reply : Option (Ticket × Option TaskId)
  stop : Bool

/-- `received` tells whether the receiver of a `FetchTask` op still exists. -/
def handleOp (d : TaskDispatcher) (op : TaskDispatcherOp) (pick : Option TaskId)
    (received : Bool) : Handled :=
  match op with
  | .registerWorker w => ⟨d.registerWorker w, none, false⟩
  | .unregisterWorker w => ⟨d.unregisterWorker w, none, false⟩
  | .addTask w t p => ⟨d.addTask w t p, none, false⟩
  | .addTasks w ts => ⟨d.addTasks w ts, none, false⟩
  | .batchAddTask ws t p => ⟨d.batchAddTask ws t p, none, false⟩
  | .batchAddTasks ws ts => ⟨d.batchAddTasks ws ts, none, false⟩
  | .removeTask t => ⟨d.removeTask t, none, false⟩
  | .fetchTask w tx =>
    let (d, taskId) := d.fetchTask w pick
    if received then ⟨d, some (tx, taskId), false⟩ else ⟨d, none, true⟩

/-- An op from the channel, with how the pop that it causes breaks ties, and whether the
receiver for its reply still exists. -/
structure Incoming where
  op : TaskDispatcherOp
  pick : Option TaskId
  received : Bool

/-- Where `run` stands after a sequence of ops: the queues, the replies it sent, the state of
the token, and the ops it did not process. -/
structure Ran where
  dispatcher : TaskDispatcher
  replies : List (Ticket × Option TaskId)
  cancelled : Bool
  unprocessed : List Incoming

def run (d : TaskDispatcher) (cancelled : Bool) : List Incoming → Ran
  | [] => ⟨d, [], cancelled, []⟩
  | x :: xs =>
    if cancelled then ⟨d, [], true, x :: xs⟩
    else
      let h := d.handleOp x.op x.pick x.received
      if h.stop then ⟨h.dispatcher, h.reply.toList, true, xs⟩
      else
        let r := h.dispatcher.run false xs
        { r with replies := h.reply.toList ++ r.replies }

def queued (d : TaskDispatcher) (workerId : WorkerId) (taskId : TaskId) : Option Int :=
  (d.workers.find workerId).bind fun worker => worker.find taskId

theorem find_foldl_set (tasks : List (TaskId × Int)) (worker : TaskQueue) (t : TaskId) :
    (tasks.foldl (fun worker e => worker.set e.1 e.2) worker).find t =
      (tasks.reverse.lookup t).or (worker.find t) := by
  induction tasks generalizing worker with
  | nil => rfl
  | cons e tasks ih =>
    rw [List.foldl_cons, ih, List.reverse_cons, List.lookup_append, Table.find_set,
      Option.or_assoc]
    congr 1
    by_cases ht : t = e.1
    · rw [if_pos ht, ht, List.lookup_cons_self, Option.some_or]
    · rw [if_neg ht, List.lookup_cons, beq_eq_false_iff_ne.2 ht]
      rfl

theorem queued_registerWorker (d : TaskDispatcher) (w w' : WorkerId) (t : TaskId) :
    (d.registerWorker w).queued w' t = d.queued w' t := by
  simp only [queued, registerWorker, Table.find_set]
  split
  next h =>
    subst h
    cases d.workers.find w' <;> rfl
  next => rfl

theorem queued_unregisterWorker (d : TaskDispatcher) (w w' : WorkerId) (t : TaskId) :
    (d.unregisterWorker w).queued w' t = if w' = w then none else d.queued w' t := by
  simp only [queued, unregisterWorker, Table.find_erase]
  split <;> rfl

theorem queued_addTasks (d : TaskDispatcher) (w w' : WorkerId) (ts : List (TaskId × Int))
    (t : TaskId) :
    (d.addTasks w ts).queued w' t =
      if w' = w ∧ (d.workers.find w).isSome then (ts.reverse.lookup t).or (d.queued w' t)
      else d.queued w' t := by
  simp only [queued, addTasks, Table.find_update]
  by_cases hw : w' = w
  · subst hw
    cases h : d.workers.find w' with
    | none => simp only [Option.isSome_none, Bool.false_eq_true, and_false, if_false, if_true,
        Option.map_none]
    | some q => simp only [Option.isSome_some, and_self, if_true, Option.map_some,
        Option.bind_some, find_foldl_set]
  · simp only [hw, false_and, if_false]

theorem addTask_eq_addTasks (d : TaskDispatcher) (w : WorkerId) (t : TaskId) (p : Int) :
    d.addTask w t p = d.addTasks w [(t, p)] := rfl

theorem queued_removeTask (d : TaskDispatcher) (w : WorkerId) (t t' : TaskId) :
    (d.removeTask t).queued w t' = if t' = t then none else d.queued w t' := by
  simp only [queued, removeTask, Table.find_updateWhere, if_true]
  cases d.workers.find w with
  | none => simp only [Option.map_none, Option.bind_none, ite_self]
  | some q => simp only [Option.map_some, Option.bind_some, Table.find_erase]

/-- The registration of workers changes only by the two ops made for it. -/
theorem find_isSome_addTasks (d : TaskDispatcher) (w w' : WorkerId)
    (ts : List (TaskId × Int)) :
    ((d.addTasks w ts).workers.find w').isSome = (d.workers.find w').isSome := by
  simp only [addTasks, Table.find_update]
  split
  · exact Option.isSome_map
  · rfl

theorem find_isSome_batchAddTask (ws : List WorkerId) (d : TaskDispatcher) (w' : WorkerId)
    (t : TaskId) (p : Int) :
    ((d.batchAddTask ws t p).workers.find w').isSome = (d.workers.find w').isSome := by
  induction ws generalizing d with
  | nil => rfl
  | cons w ws ih => exact (ih _).trans (find_isSome_addTasks d w w' [(t, p)])

theorem find_isSome_batchAddTasks (ws : List WorkerId) (d : TaskDispatcher) (w' : WorkerId)
    (ts : List (TaskId × Int)) :
    ((d.batchAddTasks ws ts).workers.find w').isSome = (d.workers.find w').isSome := by
  induction ws generalizing d with
  | nil => rfl
  | cons w ws ih => exact (ih _).trans (find_isSome_addTasks d w w' ts)

theorem find_isSome_fetchTask (d : TaskDispatcher) (w w' : WorkerId) (pick : Option TaskId) :
    ((d.fetchTask w pick).1.workers.find w').isSome = (d.workers.find w').isSome := by
  unfold fetchTask
  split
  next q t hq =>
    simp only [Table.find_set]
    split
    next hw =>
      subst hw
      rw [hq]
      rfl
    next => rfl
  next => rfl

theorem find_isSome_handleOp (d : TaskDispatcher) (op : TaskDispatcherOp)
    (pick : Option TaskId) (received : Bool) (w : WorkerId)
    (h : ((d.handleOp op pick received).dispatcher.workers.find w).isSome = true) :
    (d.workers.find w).isSome = true ∨ op = .registerWorker w := by
  cases op with
  | registerWorker w' =>
    simp only [handleOp, registerWorker, Table.find_set] at h
    split at h
    next hw => exact .inr (congrArg _ hw.symm)
    next => exact .inl h
  | unregisterWorker w' =>
    simp only [handleOp, unregisterWorker, Table.find_erase] at h
    split at h
    next => cases h
    next => exact .inl h
  | addTask w' t p => exact .inl ((find_isSome_addTasks d w' w [(t, p)]).symm.trans h)
  | addTasks w' ts => exact .inl ((find_isSome_addTasks d w' w ts).symm.trans h)
  | batchAddTask ws t p => exact .inl ((find_isSome_batchAddTask ws d w t p).symm.trans h)
  | batchAddTasks ws ts => exact .inl ((find_isSome_batchAddTasks ws d w ts).symm.trans h)
  | removeTask t =>
    simp only [handleOp, removeTask, Table.find_updateWhere, Option.isSome_map] at h
    exact .inl h
  | fetchTask w' tx =>
    refine .inl ((find_isSome_fetchTask d w' w pick).symm.trans ?_)
    simp only [handleOp] at h
    split at h <;> exact h

theorem fetchTask_reply (d : TaskDispatcher) (h : (d.fetchTask w pick).2 = some t) :
    ∃ q, d.workers.find w = some q ∧ pick = some t := by
  unfold fetchTask at h
  split at h
  next q t' hq =>
    obtain ⟨⟩ := h
    exact ⟨q, hq, rfl⟩
  next => cases h

end TaskDispatcher
end Mitosis
