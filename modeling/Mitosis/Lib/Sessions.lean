import Mitosis.Lib.Pool

namespace Mitosis
set_option autoImplicit true

/-- A command of a session, with the call that the session serves and the response it got. -/
structure Sent (C : Type) (R : C → Type) (K : Type) where
  session : Nat
  call : K
  entry : Entry C R

/-- Sessions that run programs on a shared state, with the history of what they did. -/
structure Sessions (σ : Type) (C : Type) (R : C → Type) (K β : Type) where
  shared : σ
  pool : List (Thread C R K β)
  log : List (Sent C R K)

/-- What the sessions run and how: the programs of the calls, the commands, which `φ` may make
fail, and what the environment does. -/
structure System (σ : Type) (C : Type) (R : C → Type) (K β φ ε : Type) where
  program : K → Prog C R (Flow β)
  exec : Nat → φ → σ → (c : C) → Option (R c × σ)
  env : ε → σ → Option σ

inductive Act (K φ ε : Type) where
  | call (k : K)
  | step (i : Nat) (fault : φ)
  | env (e : ε)

namespace Sessions
variable {σ C K β φ ε : Type} {R : C → Type}

def history (i : Nat) (log : List (Sent C R K)) : List (Entry C R) :=
  ((log.filter fun e => e.session = i).map Sent.entry).reverse

def next (s : Sessions σ C R K β) (i : Nat) : Option C := (s.pool[i]?).bind fun h => h.prog.head

def step (sys : System σ C R K β φ ε) (s : Sessions σ C R K β) :
    Act K φ ε → Option (Sessions σ C R K β)
  | .call k => some { s with pool := s.pool ++ [.start sys.program k] }
  | .step i fault =>
    match s.pool[i]? with
    | none => none
    | some ⟨_, .ret _⟩ => none
    | some ⟨k, .call c p⟩ => (sys.exec i fault s.shared c).map fun r => {
        shared := r.2
        pool := s.pool.set i (Thread.resume sys.program ⟨k, .call c p⟩ (p r.1))
        log := s.log ++ [⟨i, k, c, r.1⟩] }
  | .env e => (sys.env e s.shared).map fun x => { s with shared := x }

def quiescent (s : Sessions σ C R K β) : Bool := s.pool.all fun h => h.result.isSome

def result (s : Sessions σ C R K β) (i : Nat) : Option β := (s.pool[i]?).bind Thread.result

inductive Stepped (sys : System σ C R K β φ ε) (s : Sessions σ C R K β) :
    Act K φ ε → Sessions σ C R K β → Prop
  | call : Stepped sys s (.call k) { s with pool := s.pool ++ [.start sys.program k] }
  | step {c : C} {p : R c → Prog C R (Flow β)} {r : R c} : s.pool[i]? = some ⟨k, .call c p⟩ →
    sys.exec i fault s.shared c = some (r, x) → Stepped sys s (.step i fault) {
      shared := x
      pool := s.pool.set i (Thread.resume sys.program ⟨k, .call c p⟩ (p r))
      log := s.log ++ [⟨i, k, c, r⟩] }
  | env : sys.env e s.shared = some x → Stepped sys s (.env e) { s with shared := x }

theorem step_cases {sys : System σ C R K β φ ε} {s s' : Sessions σ C R K β}
    (hs : s.step sys a = some s') : Stepped sys s a s' := by
  cases a with
  | call k =>
    obtain ⟨⟩ := hs
    exact .call
  | step i fault =>
    simp only [step] at hs
    split at hs
    next => cases hs
    next => cases hs
    next k c p hi =>
      obtain ⟨⟨r, x⟩, hx, he⟩ := Option.map_eq_some_iff.1 hs
      obtain ⟨⟩ := he
      exact .step hi hx
  | env e =>
    obtain ⟨x, hx, he⟩ := Option.map_eq_some_iff.1 hs
    obtain ⟨⟩ := he
    exact .env hx

@[simp] theorem history_nil (i : Nat) : history i ([] : List (Sent C R K)) = [] := rfl

theorem history_concat_self (i : Nat) (k : K) (e : Entry C R) (log : List (Sent C R K)) :
    history i (log ++ [⟨i, k, e⟩]) = e :: history i log := by
  simp only [history, List.filter_append, List.filter_singleton, decide_true, cond_true,
    List.map_append, List.map_singleton, List.reverse_append, List.reverse_singleton,
    List.singleton_append]

theorem history_concat_ne (k : K) (e : Entry C R) (log : List (Sent C R K)) (h : i ≠ j) :
    history i (log ++ [⟨j, k, e⟩]) = history i log := by
  simp only [history, List.filter_append, List.filter_singleton, decide_eq_false h.symm,
    cond_false, List.append_nil]

theorem mem_history {log : List (Sent C R K)} {e : Entry C R} :
    e ∈ history i log ↔ ∃ k, ⟨i, k, e⟩ ∈ log := by
  simp only [history, List.mem_reverse, List.mem_map, List.mem_filter, decide_eq_true_eq]
  constructor
  · rintro ⟨⟨j, k, e'⟩, ⟨hm, rfl⟩, rfl⟩
    exact ⟨k, hm⟩
  · rintro ⟨k, hm⟩
    exact ⟨_, ⟨hm, rfl⟩, rfl⟩

variable {sys : System σ C R K β φ ε} {need : K → List (Entry C R) → C → Prop}
  {post : K → List (Entry C R) → Flow β → Prop} {ok : Sessions σ C R K β → Act K φ ε → Prop}
  {s₀ s s' : Sessions σ C R K β}

/-- Every session goes on as its program does behind what it did, and all it did was for its
call. -/
structure Traced (need : K → List (Entry C R) → C → Prop)
    (post : K → List (Entry C R) → Flow β → Prop) (s : Sessions σ C R K β) : Prop where
  knows : ∀ (i : Nat) (h : Thread C R K β), s.pool[i]? = some h →
    h.prog.Knows (need h.call) (post h.call) (history i s.log)
  calls : ∀ e ∈ s.log, ∃ h : Thread C R K β, s.pool[e.session]? = some h ∧ h.call = e.call

theorem traced_step (hstart : ∀ k, (sys.program k).Knows (need k) (post k) [])
    (hagain : ∀ k K, post k K .again → (sys.program k).Knows (need k) (post k) K)
    (h : s.Traced need post) (hs : s.step sys a = some s') : s'.Traced need post := by
  cases step_cases hs with
  | env => exact ⟨h.knows, h.calls⟩
  | @call k =>
    constructor
    · intro j t hj
      rcases getElem?_concat hj with hj | ⟨rfl, rfl⟩
      · exact h.knows j t hj
      · have hnew : history s.pool.length s.log = [] := by
          apply List.eq_nil_iff_forall_not_mem.2
          intro e he
          obtain ⟨k', hm⟩ := mem_history.1 he
          obtain ⟨t, ht, -⟩ := h.calls _ hm
          exact Nat.lt_irrefl _ (List.getElem?_eq_some_iff.1 ht).1
        rw [hnew]
        exact hstart k
    · intro e he
      obtain ⟨t, ht, hc⟩ := h.calls e he
      refine ⟨t, ?_, hc⟩
      rw [List.getElem?_append_left (List.getElem?_eq_some_iff.1 ht).1]
      exact ht
  | @step i fault x k c p r hi hx =>
    have hk := h.knows i _ hi
    constructor
    · intro j t hj
      rcases getElem?_set hj with ⟨rfl, rfl⟩ | ⟨hne, hj⟩
      · rw [Thread.resume_call, history_concat_self]
        have hr := hk.2 r
        rcases Thread.resume_cases sys.program ⟨k, .call c p⟩ (p r) with ⟨ha, hr'⟩ | ⟨-, hr'⟩
        · rw [ha] at hr
          rw [hr']
          exact hagain k _ hr
        · rw [hr']
          exact hr
      · rw [history_concat_ne _ _ _ hne]
        exact h.knows j t hj
    · intro e he
      have hpool : ∀ t : Thread C R K β, s.pool[e.session]? = some t → ∃ t' : Thread C R K β,
          (s.pool.set i (Thread.resume sys.program ⟨k, .call c p⟩ (p r)))[e.session]? = some t' ∧
          t'.call = t.call := by
        intro t ht
        by_cases hei : i = e.session
        · subst hei
          obtain rfl := Option.some.inj (hi.symm.trans ht)
          exact ⟨_, List.getElem?_set_self (List.getElem?_eq_some_iff.1 hi).1,
            Thread.resume_call _ _ _⟩
        · exact ⟨t, (List.getElem?_set_ne hei).trans ht, rfl⟩
      rcases List.mem_append.1 he with he | he
      · obtain ⟨t, ht, hc⟩ := h.calls e he
        obtain ⟨t', ht', hc'⟩ := hpool t ht
        exact ⟨t', ht', hc'.trans hc⟩
      · obtain rfl := List.mem_singleton.1 he
        exact hpool _ hi

theorem traced_of_path (hstart : ∀ k, (sys.program k).Knows (need k) (post k) [])
    (hagain : ∀ k K, post k K .again → (sys.program k).Knows (need k) (post k) K)
    (hp : Path (step sys) ok s₀ as s) (hpool : s₀.pool = []) (hlog : s₀.log = []) :
    s.Traced need post := by
  apply hp.invariant
  · constructor
    · intro i h hi
      rw [hpool] at hi
      cases hi
    · intro e he
      rw [hlog] at he
      cases he
  · intro s a s' h _ hs
    exact traced_step hstart hagain h hs

/-- What holds of the shared state and the history at the start, and is preserved by every
command for which its session has what it needs, holds in every run. -/
theorem log_invariant {P : σ → List (Sent C R K) → Prop}
    (hstart : ∀ k, (sys.program k).Knows (need k) (post k) [])
    (hagain : ∀ k K, post k K .again → (sys.program k).Knows (need k) (post k) K)
    (hp : Path (step sys) ok s₀ as s) (hpool : s₀.pool = []) (hlog : s₀.log = [])
    (h₀ : P s₀.shared [])
    (henv : ∀ e x x' log, P x log → sys.env e x = some x' → P x' log)
    (hcmd : ∀ (s : Sessions σ C R K β) i k fault c p r x, s.Traced need post →
      ok s (.step i fault) → s.pool[i]? = some ⟨k, .call c p⟩ → need k (history i s.log) c →
      sys.exec i fault s.shared c = some (r, x) → P s.shared s.log →
      P x (s.log ++ [⟨i, k, c, r⟩])) : P s.shared s.log := by
  induction hp with
  | nil =>
    rw [hlog]
    exact h₀
  | snoc hp ha hs ih =>
    have ht := traced_of_path hstart hagain hp hpool hlog
    cases step_cases hs with
    | call => exact ih
    | env hx => exact henv _ _ _ _ ih hx
    | step hi hx => exact hcmd _ _ _ _ _ _ _ _ ht ha hi (ht.knows _ _ hi).1 hx ih

theorem Traced.result (h : s.Traced need post) (hr : s.result i = some b) :
    ∃ t : Thread C R K β, s.pool[i]? = some t ∧ post t.call (history i s.log) (.done b) := by
  obtain ⟨⟨k, p⟩, hi, hb⟩ := Option.bind_eq_some_iff.1 hr
  have hk := h.knows i _ hi
  cases p with
  | call => cases hb
  | ret x =>
    cases x with
    | again => cases hb
    | done =>
      obtain ⟨⟩ := hb
      exact ⟨_, hi, hk⟩

end Sessions
end Mitosis
