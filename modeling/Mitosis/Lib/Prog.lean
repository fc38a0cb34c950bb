import Mathlib

namespace Mitosis
set_option autoImplicit true

/-- A sequential program that issues commands `c : C` and continues with the response. -/
inductive Prog (C : Type) (R : C → Type) (α : Type) where
  | ret (a : α)
  | call (c : C) (k : R c → Prog C R α)

abbrev Entry (C : Type) (R : C → Type) : Type := (c : C) × R c

theorem forall_except {P : Except ε α → Prop} :
    (∀ r, P r) ↔ (∀ a, P (.ok a)) ∧ ∀ e, P (.error e) :=
  ⟨fun h => ⟨fun a => h _, fun e => h _⟩, fun h r => by cases r; exacts [h.2 _, h.1 _]⟩

namespace Prog
variable {C : Type} {R : C → Type} {α β : Type}

def bind (p : Prog C R α) (f : α → Prog C R β) : Prog C R β :=
  match p with
  | ret a => f a
  | call c k => call c fun r => (k r).bind f

def head : Prog C R α → Option C
  | ret _ => none
  | call c _ => some c

/-- With the entries `K` behind it, latest first, every command of the program has what it
needs among the entries before it, and every result satisfies `post`. -/
def Knows (need : List (Entry C R) → C → Prop) (post : List (Entry C R) → α → Prop) :
    List (Entry C R) → Prog C R α → Prop
  | K, ret a => post K a
  | K, call c k => need K c ∧ ∀ r, (k r).Knows need post (⟨c, r⟩ :: K)

/-- Along responses that satisfy `good` the program issues commands in the `goals`, in this
order. -/
def Leads (good : (c : C) → R c → Prop) : List (C → Prop) → Prog C R α → Prop
  | [], _ => True
  | _ :: _, ret _ => False
  | g :: gs, call c k =>
    (g c ∧ ∀ r, good c r → (k r).Leads good gs) ∨ ∀ r, good c r → (k r).Leads good (g :: gs)

/-- Every result that the program reaches along good responses satisfies `post`. -/
def Yields (good : (c : C) → R c → Prop) (post : α → Prop) : Prog C R α → Prop
  | ret a => post a
  | call c k => ∀ r, good c r → (k r).Yields good post

/-- After every command the rest of the program satisfies what `Q` asks for it. -/
def After (Q : (c : C) → R c → Prog C R α → Prop) : Prog C R α → Prop
  | ret _ => True
  | call c k => ∀ r, Q c r (k r) ∧ (k r).After Q

/-- What a program may promise: along responses that satisfy `good` to issue commands in the
`goals`. -/
structure Promise (C : Type) (R : C → Type) where
  good : (c : C) → R c → Prop
  goals : List (C → Prop)

def Keeps (p : Prog C R α) (o : Promise C R) : Prop := p.Leads o.good o.goals

def Pays (owes : (c : C) → R c → Promise C R → Prop) (p : Prog C R α) : Prop :=
  p.After fun c r p => ∀ o, owes c r o → p.Keeps o

variable {need : List (Entry C R) → C → Prop} {post : List (Entry C R) → α → Prop}
  {good : (c : C) → R c → Prop} {K : List (Entry C R)}

theorem bind_assoc {γ : Type} (p : Prog C R α) (f : α → Prog C R β) (g : β → Prog C R γ) :
    (p.bind f).bind g = p.bind fun a => (f a).bind g := by
  induction p with
  | ret a => rfl
  | call c k ih => exact congrArg (call c) (funext ih)

theorem knows_bind {post : List (Entry C R) → β → Prop} (p : Prog C R α)
    (f : α → Prog C R β) : (p.bind f).Knows need post K ↔
      p.Knows need (fun K a => (f a).Knows need post K) K := by
  induction p generalizing K with
  | ret a => rfl
  | call c k ih => simp only [bind, Knows, ih]

theorem Knows.mono {post' : List (Entry C R) → α → Prop} {p : Prog C R α}
    (h : p.Knows need post K) (hpost : ∀ K a, post K a → post' K a) :
    p.Knows need post' K := by
  induction p generalizing K with
  | ret a => exact hpost K a h
  | call c k ih => exact ⟨h.1, fun r => ih r (h.2 r)⟩

/-- Where every history gives what is needed, and allows every result. -/
theorem knows_all {post : List (Entry C R) → α → Prop} (hn : ∀ K c, need K c)
    (hpost : ∀ K a, post K a) (p : Prog C R α) : p.Knows need post K := by
  induction p generalizing K with
  | ret a => exact hpost K a
  | call c k ih => exact ⟨hn K c, fun r => ih r⟩

theorem Knows.extends {p : Prog C R α} (h : p.Knows need post K) :
    p.Knows need (fun K' a => K ⊆ K' ∧ post K' a) K := by
  induction p generalizing K with
  | ret a => exact ⟨List.Subset.refl K, h⟩
  | call c k ih =>
    refine ⟨h.1, fun r => ?_⟩
    apply (ih r (h.2 r)).mono
    intro K' a ha
    exact ⟨List.Subset.trans (List.subset_cons_self _ _) ha.1, ha.2⟩

theorem leads_nil (p : Prog C R α) : p.Leads good [] := by
  cases p <;> exact trivial

theorem Leads.bind {gs : List (C → Prop)} {p : Prog C R α} (h : p.Leads good gs)
    (f : α → Prog C R β) : (p.bind f).Leads good gs := by
  induction p generalizing gs with
  | ret a =>
    cases gs with
    | nil => exact leads_nil _
    | cons => exact h.elim
  | call c k ih =>
    cases gs with
    | nil => exact leads_nil _
    | cons g gs =>
      rcases h with ⟨hg, h⟩ | h
      · exact .inl ⟨hg, fun r hr => ih r (h r hr)⟩
      · exact .inr fun r hr => ih r (h r hr)

theorem yields_bind {post : β → Prop} (p : Prog C R α) (f : α → Prog C R β) :
    (p.bind f).Yields good post ↔ p.Yields good fun a => (f a).Yields good post := by
  induction p with
  | ret a => rfl
  | call c k ih => simp only [Prog.bind, Yields, ih]

theorem Yields.mono {post post' : α → Prop} {p : Prog C R α} (h : p.Yields good post)
    (hpost : ∀ a, post a → post' a) : p.Yields good post' := by
  induction p with
  | ret a => exact hpost a h
  | call c k ih => exact fun r hr => ih r (h r hr)

theorem yields_all {post : α → Prop} (p : Prog C R α) (h : ∀ a, post a) :
    p.Yields good post := by
  induction p with
  | ret a => exact h a
  | call c k ih => exact fun r _ => ih r

theorem Leads.mono {good' : (c : C) → R c → Prop} {gs : List (C → Prop)} {p : Prog C R α}
    (h : p.Leads good gs) (hgood : ∀ c r, good' c r → good c r) : p.Leads good' gs := by
  induction p generalizing gs with
  | ret a =>
    cases gs with
    | nil => exact leads_nil _
    | cons => exact h.elim
  | call c k ih =>
    cases gs with
    | nil => exact leads_nil _
    | cons g gs =>
      rcases h with ⟨hg, h⟩ | h
      · exact .inl ⟨hg, fun r hr => ih r (h r (hgood c r hr))⟩
      · exact .inr fun r hr => ih r (h r (hgood c r hr))

/-- A requirement that more program behind cannot break composes. -/
theorem After.bind {Q : (c : C) → R c → Prog C R α → Prop}
    {Q' : (c : C) → R c → Prog C R β → Prop} {p : Prog C R α} {f : α → Prog C R β}
    (h : p.After Q) (hf : ∀ a, (f a).After Q')
    (hQ : ∀ c r p, Q c r p → Q' c r (p.bind f)) : (p.bind f).After Q' := by
  induction p with
  | ret a => exact hf a
  | call c k ih => exact fun r => ⟨hQ c r (k r) (h r).1, ih r (h r).2⟩

theorem Pays.bind {owes : (c : C) → R c → Promise C R → Prop} {p : Prog C R α}
    {f : α → Prog C R β} (h : p.Pays owes) (hf : ∀ a, (f a).Pays owes) :
    (p.bind f).Pays owes :=
  After.bind h hf fun _ _ _ hp o ho => (hp o ho).bind f

theorem Pays.assoc {γ : Type} {owes : (c : C) → R c → Promise C R → Prop} {p : Prog C R α}
    {f : α → Prog C R β} {g : β → Prog C R γ}
    (h : (p.bind fun a => (f a).bind g).Pays owes) : ((p.bind f).bind g).Pays owes := by
  rwa [bind_assoc]

theorem pays_of_knows {owes : (c : C) → R c → Promise C R → Prop}
    {post : List (Entry C R) → α → Prop} {p : Prog C R α}
    (h : p.Knows (fun _ c => ∀ r o, ¬owes c r o) post K) : p.Pays owes := by
  induction p generalizing K with
  | ret => trivial
  | call c k ih => exact fun r => ⟨fun o ho => (h.1 r o ho).elim, ih r (h.2 r)⟩

/-- Run a program alone on a state, with a partial handler for its commands. -/
def run (exec : (c : C) → σ → Option (R c × σ)) : Prog C R α → σ → Option (α × σ)
  | ret a, s => some (a, s)
  | call c k, s => (exec c s).bind fun r => (k r.1).run exec r.2

theorem run_bind (exec : (c : C) → σ → Option (R c × σ)) (p : Prog C R α)
    (f : α → Prog C R β) (s : σ) :
    (p.bind f).run exec s = (p.run exec s).bind fun r => (f r.1).run exec r.2 := by
  induction p generalizing s with
  | ret a => rfl
  | call c k ih =>
    simp only [bind, run, Option.bind_assoc]
    exact congrArg _ (funext fun r => ih _ _)

/-- The program, alone on a state, can return `b` and leave `s'`. -/
def Runs (exec : (c : C) → σ → R c → σ → Prop) : Prog C R α → σ → α → σ → Prop
  | ret a, s, b, s' => a = b ∧ s = s'
  | call c k, s, b, s' => ∃ r t, exec c s r t ∧ (k r).Runs exec t b s'

variable {exec : (c : C) → σ → R c → σ → Prop}

theorem runs_bind (p : Prog C R α) (f : α → Prog C R β) : (p.bind f).Runs exec s b s' ↔
    ∃ a t, p.Runs exec s a t ∧ (f a).Runs exec t b s' := by
  induction p generalizing s with
  | ret a =>
    constructor
    · intro h
      exact ⟨a, s, ⟨rfl, rfl⟩, h⟩
    · rintro ⟨a', t, ⟨rfl, rfl⟩, h⟩
      exact h
  | call c k ih =>
    constructor
    · rintro ⟨r, t, hx, h⟩
      obtain ⟨a, u, hk, hf⟩ := (ih r).1 h
      exact ⟨a, u, ⟨r, t, hx, hk⟩, hf⟩
    · rintro ⟨a, u, ⟨r, t, hx, hk⟩, hf⟩
      exact ⟨r, t, hx, (ih r).2 ⟨a, u, hk, hf⟩⟩

theorem runs_of_run {handler : (c : C) → σ → Option (R c × σ)} {p : Prog C R α}
    (hh : ∀ c s r t, handler c s = some (r, t) → exec c s r t)
    (h : p.run handler s = some (b, s')) : p.Runs exec s b s' := by
  induction p generalizing s with
  | ret a =>
    obtain ⟨⟩ := h
    exact ⟨rfl, rfl⟩
  | call c k ih =>
    obtain ⟨⟨r, t⟩, hx, hk⟩ := Option.bind_eq_some_iff.1 h
    exact ⟨r, t, hh c s r t hx, ih r hk⟩

end Prog
end Mitosis
