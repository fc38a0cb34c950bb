import Mitosis.Proof.Duties

namespace Mitosis
set_option autoImplicit true

/-- A coordinator that serves the database, with nothing in its channels. -/
def Infra.serving (db : Db) : Infra where
  db := db
  taskChan := []
  taskRx := true
  dispatcher := ⟨.empty⟩
  replies := .empty
  nextTicket := 0
  heartbeatChan := []
  heartbeatRx := true
  heartbeatQueue := ⟨.empty, 0⟩
  nextUuid := 0
  cancelled := false
  clock := 0

/-- The next command of a handler that runs alone, where the database fails as listed. -/
def Cmd.execAlone (c : Cmd) (s : List (Option DbErr) × Infra) :
    Option (c.Resp × (List (Option DbErr) × Infra)) :=
  match s.1 with
  | [] => none
  | fault :: faults => (c.exec fault s.2).map fun r => (r.1, (faults, r.2))

theorem Cmd.execAlone_some {c : Cmd} {r : c.Resp} {infra infra' : Infra}
    (h : c.execAlone (faults, infra) = some (r, (rest, infra'))) :
    ∃ fault, faults = fault :: rest ∧ c.exec fault infra = some (r, infra') := by
  cases faults with
  | nil => cases h
  | cons fault faults =>
    obtain ⟨⟨r', s⟩, hx, he⟩ := Option.map_eq_some_iff.1 h
    obtain ⟨⟩ := he
    exact ⟨fault, rfl, hx⟩

def State.result (s : State) (i : Nat) : Option (Except Error Reply) :=
  (s.pool[i]?).bind Thread.result

theorem run_of_follow {s s' : State} {prog : HandlerProg} {i : Nat}
    (hi : s.pool[i]? = some ⟨call, prog⟩)
    (hp : prog.Yields (fun _ _ => True) (· ≠ .again))
    (hf : Path.follow State.step (fun _ _ => true) s (faults.map (.step i)) = some s')
    (hr : s'.result i = some b) :
    prog.run Cmd.execAlone (faults, s.infra) = some (.done b, ([], s'.infra)) := by
  induction faults generalizing s prog with
  | nil =>
    obtain rfl := Option.some.inj hf
    simp only [State.result, hi, Option.bind_some] at hr
    cases prog with
    | call => cases hr
    | ret x =>
      cases x with
      | again => cases hr
      | done =>
        obtain ⟨⟩ := hr
        rfl
  | cons fault faults ih =>
    simp only [List.map_cons, Path.follow, if_true] at hf
    obtain ⟨s₁, hs, hf⟩ := Option.bind_eq_some_iff.1 hf
    cases State.step_cases hs with
    | background hb => cases hb
    | @step _ hd _ infra c k r hi' hprog hx =>
      obtain rfl := Option.some.inj (hi.symm.trans hi')
      obtain rfl := hprog
      have hi₁ : (s.pool.set i (Thread.resume program ⟨call, .call c k⟩ (k r)))[i]? = some _ :=
        List.getElem?_set_self (List.getElem?_eq_some_iff.1 hi).1
      rcases Thread.resume_cases program ⟨call, .call c k⟩ (k r) with ⟨hk, -⟩ | ⟨-, hk⟩
      · have hn := hp r trivial
        rw [hk] at hn
        exact (hn rfl).elim
      · rw [hk] at hi₁ hf
        simp only [Prog.run, Cmd.execAlone, hx, Option.map_some, Option.bind_some]
        exact ih hi₁ (hp r trivial) hf

namespace Service

def runs (p : Service α) (faults : List (Option DbErr)) (s : Infra) :
    Option (Except Error α × (List (Option DbErr) × Infra)) :=
  Prog.run Cmd.execAlone p (faults, s)

variable {faults rest : List (Option DbErr)} {s s' : Infra}

theorem runs_bind {p : Service β} {f : β → Service α} {r : Except Error α}
    (h : runs (p >>= f) faults s = some (r, (rest, s'))) :
    (∃ b faults₁ s₁, runs p faults s = some (.ok b, (faults₁, s₁)) ∧
      runs (f b) faults₁ s₁ = some (r, (rest, s'))) ∨
    ∃ e, runs p faults s = some (.error e, (rest, s')) ∧ r = .error e := by
  have h := (Prog.run_bind _ _ _ _).symm.trans h
  obtain ⟨⟨r₁, faults₁, s₁⟩, hp, hr⟩ := Option.bind_eq_some_iff.1 h
  cases r₁ with
  | error e =>
    obtain ⟨⟩ := hr
    exact .inr ⟨e, hp, rfl⟩
  | ok b => exact .inl ⟨b, faults₁, s₁, hp, hr⟩

theorem runs_recover {p : Service α} {f : Error → Service α} {r : Except Error α}
    (h : runs (recover p f) faults s = some (r, (rest, s'))) :
    (∃ a, runs p faults s = some (.ok a, (rest, s')) ∧ r = .ok a) ∨
    ∃ e faults₁ s₁, runs p faults s = some (.error e, (faults₁, s₁)) ∧
      runs (f e) faults₁ s₁ = some (r, (rest, s')) := by
  have h := (Prog.run_bind _ _ _ _).symm.trans h
  obtain ⟨⟨r₁, faults₁, s₁⟩, hp, hr⟩ := Option.bind_eq_some_iff.1 h
  cases r₁ with
  | error e => exact .inr ⟨e, faults₁, s₁, hp, hr⟩
  | ok a =>
    obtain ⟨⟩ := hr
    exact .inl ⟨a, hp, rfl⟩

theorem runs_issue {c : Cmd} {r : c.Resp}
    (h : runs (issue c) faults s = some (r, (rest, s'))) :
    ∃ fault, faults = fault :: rest ∧ c.exec fault s = some (r, s') := by
  obtain ⟨⟨r₁, faults₁, s₁⟩, hx, hr⟩ := Option.bind_eq_some_iff.1 h
  obtain ⟨⟩ := hr
  exact Cmd.execAlone_some hx

theorem runs_select {q : Select} {r : Except Error q.Ret}
    (h : runs (select q) faults s = some (r, (rest, s'))) : s = s' ∧
      ((∃ e, faults = some e :: rest ∧ r = .error (.dbError e)) ∨
        faults = none :: rest ∧ r = .ok (q.eval s.db)) := by
  obtain ⟨fault, rfl, hx⟩ := runs_issue h
  obtain ⟨rfl, ⟨e, rfl, rfl⟩ | ⟨rfl, rfl⟩⟩ := Cmd.exec_select hx
  · exact ⟨rfl, .inl ⟨e, rfl, rfl⟩⟩
  · exact ⟨rfl, .inr ⟨rfl, rfl⟩⟩

theorem runs_now {r : Except Error Instant} (h : runs now faults s = some (r, (rest, s'))) :
    ∃ fault, faults = fault :: rest ∧ r = .ok s.clock ∧ s = s' := by
  obtain ⟨fault, rfl, hx⟩ := runs_issue h
  obtain ⟨⟩ := hx
  exact ⟨fault, rfl, rfl, rfl⟩

theorem runs_okOr {x : Option α} {r : Except Error α}
    (h : runs (okOr e x) faults s = some (r, (rest, s'))) :
    faults = rest ∧ s = s' ∧ r = x.elim (.error e) .ok := by
  cases x <;>
  · obtain ⟨⟩ := h
    exact ⟨rfl, rfl, rfl⟩

theorem runs_sent {c : Cmd} {r : Except Error c.Ret}
    (h : runs (recover (issue c) fun _ => fail e) faults s = some (r, (rest, s'))) :
    ∃ fault, faults = fault :: rest ∧ ((∃ a, r = .ok a ∧ c.exec fault s = some (.ok a, s')) ∨
      r = .error e ∧ ∃ e', c.exec fault s = some (.error e', s')) := by
  rcases runs_recover h with ⟨a, hp, rfl⟩ | ⟨e', faults₁, s₁, hp, hr⟩
  · obtain ⟨fault, rfl, hx⟩ := runs_issue hp
    exact ⟨fault, rfl, .inl ⟨a, rfl, hx⟩⟩
  · obtain ⟨⟩ := hr
    obtain ⟨fault, rfl, hx⟩ := runs_issue hp
    exact ⟨fault, rfl, .inr ⟨rfl, e', hx⟩⟩

theorem runs_sendTask {r : Except Error Unit}
    (h : runs (sendTask op msg) faults s = some (r, (rest, s'))) :
    ∃ fault, faults = fault :: rest ∧
      (s.taskRx = true ∧ r = .ok () ∧ s' = { s with taskChan := s.taskChan ++ [op] } ∨
        s.taskRx = false ∧ r = .error (.custom msg) ∧ s' = s) := by
  obtain ⟨fault, rfl, ⟨a, rfl, hx⟩ | ⟨rfl, e, hx⟩⟩ := runs_sent h <;>
  cases hrx : s.taskRx <;>
  simp only [Cmd.exec, hrx, if_true, Bool.false_eq_true, if_false] at hx <;>
  obtain ⟨⟩ := hx
  · exact ⟨fault, rfl, .inl ⟨rfl, rfl, rfl⟩⟩
  · exact ⟨fault, rfl, .inr ⟨rfl, rfl, rfl⟩⟩

theorem runs_sendHeartbeat {r : Except Error Unit}
    (h : runs (sendHeartbeat op msg) faults s = some (r, (rest, s'))) :
    ∃ fault, faults = fault :: rest ∧
      (s.heartbeatRx = true ∧ r = .ok () ∧
          s' = { s with heartbeatChan := s.heartbeatChan ++ [op] } ∨
        s.heartbeatRx = false ∧ r = .error (.custom msg) ∧ s' = s) := by
  obtain ⟨fault, rfl, ⟨a, rfl, hx⟩ | ⟨rfl, e, hx⟩⟩ := runs_sent h <;>
  cases hrx : s.heartbeatRx <;>
  simp only [Cmd.exec, hrx, if_true, Bool.false_eq_true, if_false] at hx <;>
  obtain ⟨⟩ := hx
  · exact ⟨fault, rfl, .inl ⟨rfl, rfl, rfl⟩⟩
  · exact ⟨fault, rfl, .inr ⟨rfl, rfl, rfl⟩⟩

/-- A service that succeeds runs its steps one after the other. -/
theorem runs_bind_ok {p : Service β} {f : β → Service α} {a : α}
    (h : runs (p >>= f) faults s = some (.ok a, (rest, s'))) :
    ∃ b faults₁ s₁, runs p faults s = some (.ok b, (faults₁, s₁)) ∧
      runs (f b) faults₁ s₁ = some (.ok a, (rest, s')) := by
  rcases runs_bind h with h | ⟨e, -, he⟩
  · exact h
  · cases he

theorem runs_select_ok {q : Select} {a : q.Ret}
    (h : runs (select q) faults s = some (.ok a, (rest, s'))) : s = s' ∧ a = q.eval s.db := by
  obtain ⟨hs, ⟨e, -, he⟩ | ⟨-, ha⟩⟩ := runs_select h
  · cases he
  · exact ⟨hs, Except.ok.inj ha⟩

theorem runs_ofExcept {x : Except Error α} (h : runs (ofExcept x) faults s = some (.ok a, (rest, s'))) :
    s = s' ∧ x = .ok a := by
  cases x with
  | error => cases h
  | ok a' =>
    obtain ⟨⟩ := h
    exact ⟨rfl, rfl⟩

theorem runs_write_ok {q : Write} {a : q.Ret}
    (h : runs (write q) faults s = some (.ok a, (rest, s'))) :
    ∃ db, q.run s.clock s.db = .ok (a, db) ∧ s' = { s with db } := by
  obtain ⟨fault, -, hx⟩ := runs_issue h
  cases fault with
  | some e => cases hx
  | none =>
    simp only [Cmd.exec] at hx
    split at hx
    next => cases hx
    next r db hq =>
      obtain ⟨⟩ := hx
      exact ⟨db, hq, rfl⟩

end Service
end Mitosis
