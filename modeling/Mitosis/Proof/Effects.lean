import Mitosis.Proof.Alone

namespace Mitosis
set_option autoImplicit true

namespace Service

/-- Whatever fails, a run of the service alone at the time `c` takes the database to one that `R`
relates to it. -/
def Does (c : Instant) (R : Db → Db → Prop) (p : Service α) : Prop :=
  ∀ ⦃faults rest : List (Option DbErr)⦄ ⦃s s' : Infra⦄ ⦃r : Except Error α⦄, s.clock = c →
    runs p faults s = some (r, (rest, s')) → s'.clock = c ∧ R s.db s'.db

variable {c : Instant} {R S T : Db → Db → Prop}

theorem Does.mono {p : Service α} (h : Does c R p) (hR : ∀ db db', R db db' → S db db') :
    Does c S p := by
  intro faults rest s s' r hc hr
  obtain ⟨hc', hdb⟩ := h hc hr
  exact ⟨hc', hR _ _ hdb⟩

theorem Does.bind {p : Service β} {f : β → Service α} (hp : Does c R p)
    (hf : ∀ b, Does c S (f b)) (herr : ∀ db db', R db db' → T db db')
    (hseq : ∀ db db₁ db', R db db₁ → S db₁ db' → T db db') : Does c T (p >>= f) := by
  intro faults rest s s' r hc hr
  rcases runs_bind hr with ⟨b, faults₁, s₁, h₁, h₂⟩ | ⟨e, h₁, -⟩
  · obtain ⟨hc₁, hdb₁⟩ := hp hc h₁
    obtain ⟨hc', hdb'⟩ := hf b hc₁ h₂
    exact ⟨hc', hseq _ _ _ hdb₁ hdb'⟩
  · obtain ⟨hc', hdb⟩ := hp hc h₁
    exact ⟨hc', herr _ _ hdb⟩

theorem Does.recover {p : Service α} {f : Error → Service α} (hp : Does c R p)
    (hf : ∀ e, Does c Eq (f e)) : Does c R (recover p f) := by
  intro faults rest s s' r hc hr
  rcases runs_recover hr with ⟨a, h, -⟩ | ⟨e, faults₁, s₁, h₁, h₂⟩
  · exact hp hc h
  · obtain ⟨hc₁, hdb⟩ := hp hc h₁
    obtain ⟨hc', he⟩ := hf e hc₁ h₂
    exact ⟨hc', he ▸ hdb⟩

/-- A service that leaves the database, and what follows it. -/
theorem Does.after {p : Service β} {f : β → Service α} (hp : Does c Eq p)
    (hf : ∀ b, Does c R (f b)) (hrefl : ∀ db, R db db) : Does c R (p >>= f) := by
  apply hp.bind hf
  · rintro db _ rfl
    exact hrefl db
  · rintro db _ db' rfl h
    exact h

/-- What a service does stays done where the rest leaves the database. -/
theorem Does.before {p : Service β} {f : β → Service α} (hp : Does c R p)
    (hf : ∀ b, Does c Eq (f b)) : Does c R (p >>= f) := by
  apply hp.bind hf
  · exact fun _ _ h => h
  · rintro db db₁ _ h rfl
    exact h

theorem Does.ite {p q : Service α} (b : Prop) [Decidable b] (hp : Does c R p) (hq : Does c R q) :
    Does c R (if b then p else q) := by
  split
  · exact hp
  · exact hq

theorem does_ok (a : α) : Does c Eq (ok a) := by
  intro faults rest s s' r hc hr
  obtain ⟨⟩ := hr
  exact ⟨hc, rfl⟩

theorem does_fail (e : Error) : Does c Eq (fail e : Service α) := by
  intro faults rest s s' r hc hr
  obtain ⟨⟩ := hr
  exact ⟨hc, rfl⟩

theorem does_okOr (e : Error) (x : Option α) : Does c Eq (okOr e x) := by
  cases x with
  | none => exact does_fail e
  | some a => exact does_ok a

theorem does_ofExcept (x : Except Error α) : Does c Eq (ofExcept x) := by
  cases x with
  | error e => exact does_fail e
  | ok a => exact does_ok a

theorem does_issue {cmd : Cmd} (h : ∀ q, cmd ≠ .write q) : Does c Eq (issue cmd) := by
  intro faults rest s s' r hc hr
  obtain ⟨fault, -, hx⟩ := runs_issue hr
  refine ⟨?_, (Cmd.exec_db hx h).symm⟩
  cases Cmd.exec_cases hx with
  | _ => exact hc

theorem does_select (q : Select) : Does c Eq (select q) := does_issue fun _ => Cmd.noConfusion

theorem does_now : Does c Eq now := does_issue fun _ => Cmd.noConfusion

theorem does_sent {cmd : Cmd} (e : Error) (h : ∀ q, cmd ≠ .write q) :
    Does c Eq (recover (issue cmd) fun _ => fail e) :=
  (does_issue h).recover fun _ => does_fail e

theorem does_sendTask (op : TaskDispatcherOp) (msg : String) : Does c Eq (sendTask op msg) :=
  does_sent _ fun _ => Cmd.noConfusion

theorem does_sendHeartbeat (op : HeartbeatOp) (msg : String) :
    Does c Eq (sendHeartbeat op msg) := does_sent _ fun _ => Cmd.noConfusion

/-- A statement fails and leaves the database, or does what it does at the time. -/
theorem does_write {q : Write} (hrefl : ∀ db, R db db)
    (h : ∀ db a db', q.run c db = .ok (a, db') → R db db') : Does c R (write q) := by
  intro faults rest s s' r hc hr
  obtain ⟨fault, -, hx⟩ := runs_issue hr
  rcases Cmd.exec_write hx with ⟨e, -, rfl⟩ | ⟨a, db, -, hq, -, rfl⟩
  · exact ⟨hc, hrefl _⟩
  · exact ⟨hc, h _ a db (hc ▸ hq)⟩

theorem does_ignore {p : Service Unit} (h : Does c R p) : Does c R (ignore p) :=
  h.recover fun _ => does_ok ()

theorem does_removeTasks (ids : List TaskId) : Does c Eq (removeTasks ids) := by
  induction ids with
  | nil => exact does_ok ()
  | cons id ids ih => exact Does.after (does_ignore (does_sendTask _ _)) (fun _ => ih) fun _ => rfl

end Service
end Mitosis
