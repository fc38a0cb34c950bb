import Mitosis.Run

namespace Mitosis
set_option autoImplicit true

abbrev History := List (Entry Cmd Cmd.Resp)

namespace Service

def Knows (need : History → Cmd → Prop) (K : History) (p : Service α)
    (post : History → Except Error α → Prop) : Prop := Prog.Knows need post K p

section
variable {need : History → Cmd → Prop} {K : History}
  {post : History → Except Error α → Prop}

theorem Knows.mono {post' : History → Except Error α → Prop} {p : Service α}
    (h : Knows need K p post) (hpost : ∀ K r, post K r → post' K r) : Knows need K p post' :=
  Prog.Knows.mono h hpost

theorem Knows.extends {p : Service α} (h : Knows need K p post) :
    Knows need K p fun K' r => K ⊆ K' ∧ post K' r := Prog.Knows.extends h

@[simp] theorem knows_pure (a : α) : Knows need K (pure a) post ↔ post K (.ok a) := .rfl

@[simp] theorem knows_ok (a : α) : Knows need K (ok a) post ↔ post K (.ok a) := .rfl

@[simp] theorem knows_fail (e : Error) : Knows need K (fail e) post ↔ post K (.error e) := .rfl

@[simp] theorem knows_bind (p : Service β) (f : β → Service α) :
    Knows need K (p >>= f) post ↔ Knows need K p fun K r => match r with
      | .ok a => Knows need K (f a) post
      | .error e => post K (.error e) := by
  refine (Prog.knows_bind _ _).trans ?_
  constructor <;>
  · intro h
    refine Prog.Knows.mono h ?_
    rintro K (e | a) h <;> exact h

@[simp] theorem knows_map (p : Service β) (f : β → α) :
    Knows need K (f <$> p) post ↔ Knows need K p fun K r => post K (r.map f) := by
  refine (Prog.knows_bind _ _).trans ?_
  constructor <;>
  · intro h
    refine Prog.Knows.mono h ?_
    rintro K (e | a) h <;> exact h

@[simp] theorem knows_recover (p : Service α) (f : Error → Service α) :
    Knows need K (recover p f) post ↔ Knows need K p fun K r => match r with
      | .ok a => post K (.ok a)
      | .error e => Knows need K (f e) post := by
  refine (Prog.knows_bind _ _).trans ?_
  constructor <;>
  · intro h
    refine Prog.Knows.mono h ?_
    rintro K (e | a) h <;> exact h

@[simp] theorem knows_okOr (e : Error) (x : Option α) : Knows need K (okOr e x) post ↔
    (∀ a, x = some a → post K (.ok a)) ∧ (x = none → post K (.error e)) := by
  cases x with
  | none => exact ⟨fun h => ⟨fun _ hx => (by cases hx), fun _ => h⟩, fun h => h.2 rfl⟩
  | some a =>
    refine ⟨fun h => ⟨fun _ hx => ?_, fun hx => (by cases hx)⟩, fun h => h.1 a rfl⟩
    obtain ⟨⟩ := hx
    exact h

@[simp] theorem knows_ofExcept (x : Except Error α) :
    Knows need K (ofExcept x) post ↔ post K x := by
  cases x <;> exact .rfl

@[simp] theorem knows_sendTask {post : History → Except Error Unit → Prop}
    (op : TaskDispatcherOp) (msg : String) :
    Knows need K (sendTask op msg) post ↔ need K (.sendTask op) ∧
      post (⟨.sendTask op, .ok ()⟩ :: K) (.ok ()) ∧
      ∀ e, post (⟨.sendTask op, .error e⟩ :: K) (.error (.custom msg)) := by
  refine (knows_recover _ _).trans (and_congr_right fun _ => ?_)
  exact ⟨fun h => ⟨h (.ok ()), fun e => h (.error e)⟩, fun h r => by
    cases r; exacts [h.2 _, h.1]⟩

@[simp] theorem knows_sendHeartbeat {post : History → Except Error Unit → Prop}
    (op : HeartbeatOp) (msg : String) :
    Knows need K (sendHeartbeat op msg) post ↔ need K (.sendHeartbeat op) ∧
      post (⟨.sendHeartbeat op, .ok ()⟩ :: K) (.ok ()) ∧
      ∀ e, post (⟨.sendHeartbeat op, .error e⟩ :: K) (.error (.custom msg)) := by
  refine (knows_recover _ _).trans (and_congr_right fun _ => ?_)
  exact ⟨fun h => ⟨h (.ok ()), fun e => h (.error e)⟩, fun h r => by
    cases r; exacts [h.2 _, h.1]⟩

@[simp] theorem knows_ignore {post : History → Except Error Unit → Prop} (p : Service Unit) :
    Knows need K (ignore p) post ↔ Knows need K p fun K _ => post K (.ok ()) := by
  refine (knows_recover _ _).trans ?_
  constructor <;>
  · intro h
    refine h.mono ?_
    rintro K (e | a) h <;> exact h

end

section
variable {need : History → Cmd → Prop} {K : History}

@[simp] theorem knows_issue (c : Cmd) {post : History → c.Resp → Prop} :
    @Knows (no_index c.Ret) need K (issue c) post ↔ need K c ∧ ∀ r, post (⟨c, r⟩ :: K) r := .rfl

@[simp] theorem knows_select (q : Select) {post : History → Except Error q.Ret → Prop} :
    @Knows (no_index q.Ret) need K (select q) post ↔
      need K (.select q) ∧ ∀ r, post (⟨.select q, r⟩ :: K) r := .rfl

@[simp] theorem knows_write (q : Write) {post : History → Except Error q.Ret → Prop} :
    @Knows (no_index q.Ret) need K (write q) post ↔
      need K (.write q) ∧ ∀ r, post (⟨.write q, r⟩ :: K) r := .rfl

@[simp] theorem knows_now {post : History → Except Error Instant → Prop} :
    Knows need K now post ↔ need K .now ∧ ∀ r, post (⟨.now, r⟩ :: K) r := .rfl

@[simp] theorem knows_newUuid {post : History → Except Error Uuid → Prop} :
    Knows need K newUuid post ↔ need K .newUuid ∧ ∀ r, post (⟨.newUuid, r⟩ :: K) r := .rfl

end

theorem knows_once {need : History → Cmd → Prop} {post : History → Flow (Except Error Reply) → Prop}
    (f : α → Reply) (p : Service α) : Prog.Knows need post K (once f p) ↔
      Knows need K p fun K r => post K (.done (r.map f)) := Prog.knows_bind _ _

end Service
end Mitosis
