import Mitosis.Dispatcher

namespace Mitosis
set_option autoImplicit true

namespace TaskDispatcher

/-- The op is a `FetchTask` whose caller has dropped the receiver. -/
def Incoming.undelivered (x : Incoming) : Bool :=
  match x.op with
  | .fetchTask _ _ => !x.received
  | _ => false

/-- `run` processes every op, leaves the token alone, and still has queued every task that it
popped for an undelivered `FetchTask`. -/
structure Survives (d : TaskDispatcher) (xs : List Incoming) : Prop where
  token : (d.run false xs).cancelled = false
  processed : (d.run false xs).unprocessed = []
  kept : ∀ pre x post w tx t, xs = pre ++ x :: post → x.op = .fetchTask w tx →
    x.received = false →
    ((d.run false pre).dispatcher.fetchTask w x.pick).2 = some t →
    ((d.run false (pre ++ [x])).dispatcher.queued w t).isSome = true

theorem handleOp_stop (d : TaskDispatcher) (x : Incoming) :
    (d.handleOp x.op x.pick x.received).stop = x.undelivered := by
  obtain ⟨op, pick, received⟩ := x
  cases op with
  | fetchTask w tx => cases received <;> rfl
  | _ => rfl

theorem run_cons_delivered {d : TaskDispatcher} (hx : x.undelivered = false)
    (xs : List Incoming) :
    (d.run false (x :: xs)).cancelled =
        ((d.handleOp x.op x.pick x.received).dispatcher.run false xs).cancelled ∧
      (d.run false (x :: xs)).unprocessed =
        ((d.handleOp x.op x.pick x.received).dispatcher.run false xs).unprocessed := by
  simp only [run, handleOp_stop, hx, Bool.false_eq_true, if_false, and_self]

theorem run_delivered (d : TaskDispatcher) {xs : List Incoming}
    (h : ∀ x ∈ xs, x.undelivered = false) :
    (d.run false xs).cancelled = false ∧ (d.run false xs).unprocessed = [] := by
  induction xs generalizing d with
  | nil => exact ⟨rfl, rfl⟩
  | cons x xs ih =>
    obtain ⟨hc, hu⟩ := run_cons_delivered (h x List.mem_cons_self) (d := d) xs
    rw [hc, hu]
    exact ih _ fun y hy => h y (List.mem_cons_of_mem x hy)

theorem run_undelivered (d : TaskDispatcher) {xs : List Incoming}
    (h : ∃ x ∈ xs, x.undelivered = true) : (d.run false xs).cancelled = true := by
  induction xs generalizing d with
  | nil =>
    obtain ⟨x, hx, _⟩ := h
    cases hx
  | cons y xs ih =>
    cases hy : y.undelivered with
    | true =>
      simp only [run, handleOp_stop, hy, Bool.false_eq_true, if_false, if_true]
    | false =>
      rw [(run_cons_delivered hy xs).1]
      obtain ⟨x, hx, hu⟩ := h
      rcases List.mem_cons.1 hx with rfl | hx
      · rw [hy] at hu
        cases hu
      · exact ih _ ⟨x, hx, hu⟩

/-- The dispatcher survives exactly the sequences in which no caller has gone away. -/
theorem survives_iff_delivered (d : TaskDispatcher) (xs : List Incoming) :
    d.Survives xs ↔ ∀ x ∈ xs, x.undelivered = false := by
  constructor
  · intro h x hx
    cases hu : x.undelivered with
    | false => rfl
    | true =>
      have hc := run_undelivered d ⟨x, hx, hu⟩
      rw [h.token] at hc
      cases hc
  · intro h
    obtain ⟨hc, hu⟩ := run_delivered d h
    refine ⟨hc, hu, fun pre x post w tx t hxs hop hr _ => ?_⟩
    have hx := h x (hxs ▸ List.mem_append_right pre List.mem_cons_self)
    rw [Incoming.undelivered, hop, hr] at hx
    cases hx

/-- A worker gives up its `FetchTask` before the reply: the token is cancelled, the last op
stays in the channel, and the task is in no queue. -/
theorem dropped_fetch_stops :
    let d : TaskDispatcher := ⟨.empty⟩
    let xs : List Incoming := [⟨.registerWorker 1, none, true⟩, ⟨.addTask 1 7 0, none, true⟩,
      ⟨.fetchTask 1 0, some 7, false⟩, ⟨.fetchTask 1 1, some 7, true⟩]
    (d.run false xs).cancelled = true ∧ (d.run false xs).unprocessed.length = 1 ∧
      (d.run false xs).dispatcher.queued 1 7 = none ∧ ¬d.Survives xs := by
  refine ⟨by decide, by decide, by decide, fun h => ?_⟩
  have hc := h.token
  revert hc
  decide

end TaskDispatcher
end Mitosis
