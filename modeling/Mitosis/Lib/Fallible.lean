import Mitosis.Lib.Sessions

namespace Mitosis
set_option autoImplicit true

/-- Programs that may fail, over commands each of which may fail. -/
def Fallible (C : Type) (Ret : C → Type) (ε α : Type) : Type :=
  Prog C (fun c => Except ε (Ret c)) (Except ε α)

namespace Fallible
variable {C ε : Type} {Ret : C → Type} {α β : Type}

def ok (a : α) : Fallible C Ret ε α := Prog.ret (.ok a)

def fail (e : ε) : Fallible C Ret ε α := Prog.ret (.error e)

/-- `p?` followed by the rest of the function. -/
def andThen (p : Fallible C Ret ε α) (f : α → Fallible C Ret ε β) : Fallible C Ret ε β :=
  Prog.bind (β := Except ε β) p fun
    | .ok a => f a
    | .error e => Prog.ret (.error e)

/-- `match p { Ok(a) => .., Err(e) => .. }`. -/
def attempt (p : Fallible C Ret ε α) : Fallible C Ret ε (Except ε α) :=
  Prog.bind (β := Except ε (Except ε α)) p fun r => Prog.ret (.ok r)

instance : Monad (Fallible C Ret ε) where
  pure := ok
  bind := andThen

def issue (c : C) : Fallible C Ret ε (Ret c) := Prog.call c Prog.ret

/-- `ok_or(e)?`. -/
def okOr (e : ε) : Option α → Fallible C Ret ε α
  | some a => ok a
  | none => fail e

def ofExcept : Except ε α → Fallible C Ret ε α
  | .ok a => ok a
  | .error e => fail e

def once (f : α → β) (p : Fallible C Ret ε α) :
    Prog C (fun c => Except ε (Ret c)) (Flow (Except ε β)) :=
  Prog.bind (β := Flow (Except ε β)) p fun r => .ret (.done (r.map f))

abbrev History (C : Type) (Ret : C → Type) (ε : Type) : Type :=
  List (Entry C fun c => Except ε (Ret c))

def Knows (need : History C Ret ε → C → Prop) (K : History C Ret ε) (p : Fallible C Ret ε α)
    (post : History C Ret ε → Except ε α → Prop) : Prop := Prog.Knows need post K p

variable {need : History C Ret ε → C → Prop} {K : History C Ret ε}
  {post : History C Ret ε → Except ε α → Prop}

theorem Knows.mono {post' : History C Ret ε → Except ε α → Prop} {p : Fallible C Ret ε α}
    (h : Knows need K p post) (hpost : ∀ K r, post K r → post' K r) : Knows need K p post' :=
  Prog.Knows.mono h hpost

@[simp] theorem knows_pure (a : α) :
    Knows need K (pure a : Fallible C Ret ε α) post ↔ post K (.ok a) := .rfl

@[simp] theorem knows_fail (e : ε) :
    Knows need K (fail e : Fallible C Ret ε α) post ↔ post K (.error e) := .rfl

@[simp] theorem knows_bind (p : Fallible C Ret ε β) (f : β → Fallible C Ret ε α) :
    Knows need K (p >>= f) post ↔ Knows need K p fun K r => match r with
      | .ok a => Knows need K (f a) post
      | .error e => post K (.error e) := by
  apply (Prog.knows_bind _ _).trans
  constructor
  · intro h
    apply Prog.Knows.mono h
    rintro K (e | a) h <;> exact h
  · intro h
    apply Prog.Knows.mono h
    rintro K (e | a) h <;> exact h

@[simp] theorem knows_attempt {post : History C Ret ε → Except ε (Except ε α) → Prop}
    (p : Fallible C Ret ε α) :
    Knows need K (attempt p) post ↔ Knows need K p fun K r => post K (.ok r) :=
  Prog.knows_bind _ _

@[simp] theorem knows_issue (c : C) {post : History C Ret ε → Except ε (Ret c) → Prop} :
    Knows need K (issue c : Fallible C Ret ε (Ret c)) post ↔
      need K c ∧ ∀ r, post (⟨c, r⟩ :: K) r := .rfl

@[simp] theorem knows_okOr (e : ε) (x : Option α) :
    Knows need K (okOr e x : Fallible C Ret ε α) post ↔
      (∀ a, x = some a → post K (.ok a)) ∧ (x = none → post K (.error e)) := by
  cases x with
  | none => exact ⟨fun h => ⟨nofun, fun _ => h⟩, fun h => h.2 rfl⟩
  | some a =>
    constructor
    · intro h
      constructor
      · intro b hb
        obtain ⟨⟩ := hb
        exact h
      · exact nofun
    · exact fun h => h.1 a rfl

@[simp] theorem knows_ofExcept (x : Except ε α) :
    Knows need K (ofExcept x : Fallible C Ret ε α) post ↔ post K x := by
  cases x <;> exact .rfl

theorem knows_once {post : History C Ret ε → Flow (Except ε β) → Prop} (f : α → β)
    (p : Fallible C Ret ε α) : (once f p).Knows need post K ↔
      Knows need K p fun K r => post K (.done (r.map f)) := Prog.knows_bind _ _

def Runs (exec : (c : C) → σ → Except ε (Ret c) → σ → Prop) (p : Fallible C Ret ε α) (s : σ)
    (r : Except ε α) (s' : σ) : Prop := Prog.Runs exec p s r s'

variable {exec : (c : C) → σ → Except ε (Ret c) → σ → Prop} {r : Except ε α}

@[simp] theorem runs_pure (a : α) :
    Runs exec (pure a : Fallible C Ret ε α) s r s' ↔ .ok a = r ∧ s = s' := .rfl

@[simp] theorem runs_fail (e : ε) :
    Runs exec (fail e : Fallible C Ret ε α) s r s' ↔ .error e = r ∧ s = s' := .rfl

@[simp] theorem runs_issue (c : C) {r : Except ε (Ret c)} :
    Runs exec (issue c) s r s' ↔ exec c s r s' := by
  constructor
  · rintro ⟨r', t, hx, rfl, rfl⟩
    exact hx
  · intro hx
    exact ⟨r, s', hx, rfl, rfl⟩

theorem runs_bind (p : Fallible C Ret ε β) (f : β → Fallible C Ret ε α) :
    Runs exec (p >>= f) s r s' ↔ (∃ b t, Runs exec p s (.ok b) t ∧ Runs exec (f b) t r s') ∨
      ∃ e, Runs exec p s (.error e) s' ∧ .error e = r := by
  apply (Prog.runs_bind _ _).trans
  constructor
  · rintro ⟨b | b, t, hp, hf⟩
    · obtain ⟨rfl, rfl⟩ := hf
      exact .inr ⟨b, hp, rfl⟩
    · exact .inl ⟨b, t, hp, hf⟩
  · rintro (⟨b, t, hp, hf⟩ | ⟨e, hp, rfl⟩)
    · exact ⟨.ok b, t, hp, hf⟩
    · exact ⟨.error e, s', hp, rfl, rfl⟩

theorem runs_bind_ok (p : Fallible C Ret ε β) (f : β → Fallible C Ret ε α) :
    Runs exec (p >>= f) s (.ok a) s' ↔
      ∃ b t, Runs exec p s (.ok b) t ∧ Runs exec (f b) t (.ok a) s' := by
  apply (runs_bind p f).trans
  constructor
  · rintro (h | ⟨e, -, he⟩)
    · exact h
    · cases he
  · exact .inl

theorem runs_attempt {r : Except ε (Except ε α)} (p : Fallible C Ret ε α) :
    Runs exec (attempt p) s r s' ↔ ∃ r', Runs exec p s r' s' ∧ .ok r' = r := by
  apply (Prog.runs_bind _ _).trans
  constructor
  · rintro ⟨r', t, hp, rfl, rfl⟩
    exact ⟨r', hp, rfl⟩
  · rintro ⟨r', hp, rfl⟩
    exact ⟨r', s', hp, rfl, rfl⟩

theorem runs_okOr_ok (e : ε) (x : Option α) :
    Runs exec (okOr e x : Fallible C Ret ε α) s (.ok a) s' ↔ x = some a ∧ s = s' := by
  cases x with
  | none =>
    constructor
    · rintro ⟨⟨⟩, -⟩
    · rintro ⟨⟨⟩, -⟩
  | some b =>
    constructor
    · rintro ⟨⟨⟩, rfl⟩
      exact ⟨rfl, rfl⟩
    · rintro ⟨⟨⟩, rfl⟩
      exact ⟨rfl, rfl⟩

end Fallible
end Mitosis
