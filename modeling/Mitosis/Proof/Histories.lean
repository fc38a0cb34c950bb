import Mitosis.Proof.Sourced

namespace Mitosis
set_option autoImplicit true

/-- What the handler `i` did, according to the log of a run. -/
def history (i : Nat) (log : List Event) : History :=
  ((log.filter fun e => e.1 = i).map Prod.snd).reverse

theorem history_concat_self : history i (log ++ [(i, e)]) = e :: history i log := by
  simp [history]

theorem history_concat_ne {e : Event} (h : e.1 ≠ i) :
    history i (log ++ [e]) = history i log := by
  simp [history, h]

theorem mem_history : e ∈ history i log ↔ (i, e) ∈ log := by
  simp [history]

structure Informed (need : Call → History → Cmd → Prop)
    (post : Call → History → Flow (Except Error Reply) → Prop) (log : List Event) (s : State) :
    Prop where
  index : ∀ e ∈ log, e.1 < s.pool.length
  knows : ∀ i (h : Handler), s.pool[i]? = some h →
    h.prog.Knows (need h.call) (post h.call) (history i log)

namespace Informed
variable {s s' : State} {need : Call → History → Cmd → Prop}
  {post : Call → History → Flow (Except Error Reply) → Prop}

theorem history_nil (h : Informed need post log s) : history s.pool.length log = [] := by
  simp only [history, List.reverse_eq_nil_iff, List.map_eq_nil_iff, List.filter_eq_nil_iff,
    decide_eq_true_eq]
  exact fun e he => Nat.ne_of_lt (h.index e he)

theorem push (h : Informed need post log s) (infra : Infra)
    (hc : (program c).Knows (need c) (post c) []) :
    Informed need post log ⟨infra, s.pool ++ [.start program c]⟩ where
  index e he := by
    rw [List.length_append]
    exact Nat.lt_add_right _ (h.index e he)
  knows i hd hi := by
    rcases getElem?_concat hi with hi | ⟨rfl, rfl⟩
    · exact h.knows i hd hi
    · rw [h.history_nil]
      exact hc

theorem initial : Informed need post [] (State.initial accounts timeout clock) where
  index e h := by cases h
  knows i h hi := by cases hi

theorem step (h : Informed need post log s)
    (hstart : ∀ c, (program c).Knows (need c) (post c) [])
    (hagain : ∀ c K, post c K .again → (program c).Knows (need c) (post c) K)
    (habort : ∀ (hd : Handler) K, hd.aborted.prog.Knows (need hd.aborted.call)
      (post hd.aborted.call) K)
    (hs : s.step a = some s') : Informed need post (log ++ (s.event a).toList) s' := by
  cases State.step_cases hs with
  | call =>
    change Informed need post (log ++ []) _
    rw [List.append_nil]
    exact h.push _ (hstart _)
  | background hb =>
    have he : s.event a = none := by cases hb <;> rfl
    rw [he, Option.toList_none, List.append_nil]
    exact ⟨h.index, h.knows⟩
  | timeout =>
    change Informed need post (log ++ []) _
    rw [List.append_nil]
    exact h.push _ (hstart _)
  | @abortTimeout i hd hi ht =>
    change Informed need post (log ++ []) _
    rw [List.append_nil]
    refine ⟨fun e he => ?_, fun j hd' hj => ?_⟩
    · rw [List.length_set]
      exact h.index e he
    · rcases getElem?_set hj with ⟨rfl, rfl⟩ | ⟨-, hj⟩
      · exact habort hd _
      · exact h.knows j hd' hj
  | @step i hd fault infra c k r hi hp hx =>
    rw [(State.event_step hi hp hx).2, Option.toList_some]
    have hk := h.knows i hd hi
    rw [hp] at hk
    refine ⟨fun e hm => ?_, fun j hd' hj => ?_⟩
    · rw [List.length_set]
      rcases List.mem_append.1 hm with hm | hm
      · exact h.index e hm
      · obtain rfl := List.mem_singleton.1 hm
        exact (List.getElem?_eq_some_iff.1 hi).1
    · rcases getElem?_set hj with ⟨rfl, rfl⟩ | ⟨hne, hj⟩
      · rw [history_concat_self]
        rcases Thread.resume_cases program hd (k r) with ⟨hret, hr⟩ | ⟨-, hr⟩
        · rw [hr]
          have hpost := hk.2 r
          rw [hret] at hpost
          exact hagain _ _ hpost
        · rw [hr]
          exact hk.2 r
      · rw [history_concat_ne (Ne.symm hne)]
        exact h.knows j hd' hj

end Informed

/-- The handlers of a state and the log of the run that led there belong together. -/
structure Traced (log : List Event) (s : State) : Prop where
  index : ∀ e ∈ log, e.1 < s.pool.length
  knows : ∀ i (h : Handler), s.pool[i]? = some h →
    h.prog.Knows (Cmd.sourced h.call) (Reply.sourced h.call) (history i log)

theorem Traced.informed {s : State} (h : Traced log s) : Informed Cmd.sourced Reply.sourced log s :=
  ⟨h.index, h.knows⟩

theorem Traced.step {s : State} (h : Traced log s) (hs : s.step a = some s') :
    Traced (log ++ (s.event a).toList) s' := by
  have h' := h.informed.step (fun c => program_sourced (.inl rfl))
    (fun c K hpost => program_sourced (.inr hpost)) (fun hd K => ⟨trivial, fun _ => trivial⟩) hs
  exact ⟨h'.index, h'.knows⟩

theorem traced_of_path {s₀ s : State} (hp : Path State.step ok s₀ as s) (h₀ : s₀.pool = []) :
    Traced (s₀.log as) s := by
  induction hp with
  | nil =>
    refine ⟨fun e he => ?_, fun i h hi => ?_⟩
    · cases he
    · rw [h₀] at hi
      cases hi
  | snoc hp _ hs ih =>
    rw [State.log_snoc hp hs]
    exact ih.step hs

end Mitosis
