import Mitosis.Lib.Moments
import Mitosis.Proof.Tracked

namespace Mitosis
set_option autoImplicit true

namespace Tasks
open Sessions
open Txns (applyAll)
export Sessions (issued_of_history issued_twice pending_of_step)

def State.commits (s : State) : Act Call Chance Env → List Write
  | .step i chance =>
    match s.next i, chance.fault with
    | some .commit, none => (s.shared.txns.opened.find i).getD []
    | _, _ => []
  | _ => []

def Write.edits : Write → Prop
  | .change _ c _ => c.edits
  | .changeArchived _ _ _ | .addArchived _ _ => True
  | _ => False

theorem next_eq {s : State} {c : Cmd} {p : c.Resp → Prog Cmd Cmd.Resp (Flow (Except Error Reply))}
    (h : s.pool[i]? = some ⟨k, .call c p⟩) : s.next i = some c := by
  rw [Sessions.next, h]
  rfl

namespace Tracked
variable {s : State} {i : Nat} {k : Call} {c : Cmd} {r : c.Resp} {x' : Infra}

/-- What a step commits that only transactions write was written by its transaction. -/
theorem landed_edits (h : Tracked s.shared s.log) (hnext : s.next i = some c)
    (hn : c.sourced (history i s.log)) (hx : c.exec i chance s.shared = some (r, x')) :
    ∀ w ∈ landed (history i s.log) ⟨c, r⟩, w.edits → w ∈ State.commits s (.step i chance) := by
  have hnone : ∀ ws : List Write, (txn (history i s.log) = none → ∀ w ∈ ws, ¬w.edits) →
      ∀ w ∈ (if (txn (history i s.log)).isNone then ws else []), w.edits →
        w ∈ State.commits s (.step i chance) := by
    intro ws hws w hm he
    split at hm
    next hnn => exact (hws (Option.isNone_iff_eq_none.1 hnn) w hm he).elim
    next => cases hm
  have hone : ∀ w : Write, ¬w.edits → ∀ w' ∈ [w], ¬w'.edits := by
    intro w hw w' hm
    obtain rfl := List.mem_singleton.1 hm
    exact hw
  have hmap : ∀ {α : Type} (l : List α) (f : α → Write), (∀ a, ¬(f a).edits) →
      ∀ w ∈ l.map f, ¬w.edits := by
    intro α l f hf w hm
    obtain ⟨a, -, rfl⟩ := List.mem_map.1 hm
    exact hf a
  cases r with
  | error e =>
    cases c <;> exact hnone [] fun _ => List.forall_mem_nil _
  | ok a =>
    cases c with
    | commit =>
      intro w hm _
      have hfault : chance.fault = none := by
        unfold Cmd.exec at hx
        cases hf : chance.fault with
        | none => rfl
        | some e =>
          rw [hf] at hx
          cases hx
      change w ∈ ((txn (history i s.log)).getD []).reverse at hm
      simp only [State.commits, hnext, hfault, h.records.opened]
      cases ht : txn (history i s.log) with
      | none =>
        rw [ht] at hm
        cases hm
      | some us =>
        rw [ht] at hm
        exact hm
    | change id c' time =>
      apply hnone
      intro ht
      apply hone
      intro he
      cases ht.symm.trans (hn.2 he)
    | changeArchived id c' time =>
      apply hnone
      intro ht
      cases ht.symm.trans hn
    | insertArchived id row =>
      apply hnone
      intro ht
      cases ht.symm.trans hn.1
    | addTaskCount req time =>
      apply hnone
      intro _
      cases a with
      | none => exact List.forall_mem_nil _
      | some e => exact hone _ fun h => h
    | assignTask workerId id time =>
      apply hnone
      intro _
      cases a with
      | none => exact List.forall_mem_nil _
      | some e => exact hone _ fun h => h
    | pushBackTasks => exact hnone _ fun _ => hmap _ _ fun _ h => h
    | retireWorkers => exact hnone _ fun _ => hmap _ _ fun _ h => h
    | insertTask | deleteActive | archiveTasks | updateWorker | deleteWorkers =>
      exact hnone _ fun _ => hone _ fun h => h
    | _ => exact hnone [] fun _ => List.forall_mem_nil _

end Tracked

theorem exec_tasks {x x' : Infra} {q : TaskSelect} {a : q.Ret}
    (h : Cmd.exec i chance x (.tasks q) = some (.ok a, x')) : a = q.eval (x.txns.view i) := by
  unfold Cmd.exec at h
  cases hf : chance.fault with
  | some e =>
    rw [hf] at h
    cases h
  | none =>
    rw [hf] at h
    obtain ⟨⟩ := h
    rfl

theorem exec_select {x x' : Infra} {q : Select} {a : q.Ret}
    (h : Cmd.exec i chance x (.select q) = some (.ok a, x')) : a = q.eval (x.txns.view i) := by
  unfold Cmd.exec at h
  cases hf : chance.fault with
  | some e =>
    rw [hf] at h
    cases h
  | none =>
    rw [hf] at h
    obtain ⟨⟩ := h
    rfl

theorem exec_tasks_error {x x' : Infra} {q : TaskSelect}
    (h : Cmd.exec i chance x (.tasks q) = some (.error e, x')) : ∃ d, e = .dbError d := by
  unfold Cmd.exec at h
  cases hf : chance.fault with
  | some d =>
    rw [hf] at h
    obtain ⟨⟩ := h
    exact ⟨d, rfl⟩
  | none =>
    rw [hf] at h
    cases h

theorem exec_select_error {x x' : Infra} {q : Select}
    (h : Cmd.exec i chance x (.select q) = some (.error e, x')) : ∃ d, e = .dbError d := by
  unfold Cmd.exec at h
  cases hf : chance.fault with
  | some d =>
    rw [hf] at h
    obtain ⟨⟩ := h
    exact ⟨d, rfl⟩
  | none =>
    rw [hf] at h
    cases h

end Tasks
end Mitosis
