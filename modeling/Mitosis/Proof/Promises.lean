import Mitosis.Proof.Duties

namespace Mitosis
set_option autoImplicit true

open Prog (Promise)

namespace Service
variable {owes : (c : Cmd) → c.Resp → Promise Cmd Cmd.Resp → Prop}

def Pays (owes : (c : Cmd) → c.Resp → Promise Cmd Cmd.Resp → Prop) (p : Service α) : Prop :=
  Prog.Pays owes p

/-- The command promises nothing, whatever the response. -/
abbrev Idle (owes : (c : Cmd) → c.Resp → Promise Cmd Cmd.Resp → Prop) (_ : History) (c : Cmd) :
    Prop := ∀ r o, ¬owes c r o

theorem pays_bind {p : Service β} {f : β → Service α} (hp : Pays owes p)
    (hf : ∀ b, Pays owes (f b)) : Pays owes (p >>= f) := by
  refine Prog.Pays.bind hp fun r => ?_
  cases r with
  | error => trivial
  | ok b => exact hf b

theorem pays_recover {p : Service α} {f : Error → Service α} (hp : Pays owes p)
    (hf : ∀ e, Pays owes (f e)) : Pays owes (recover p f) := by
  refine Prog.Pays.bind hp fun r => ?_
  cases r with
  | error e => exact hf e
  | ok => trivial

theorem pays_idle {p : Service α} (h : Knows (Idle owes) [] p fun _ _ => True) : Pays owes p :=
  Prog.pays_of_knows h

theorem pays_once (f : α → Reply) {p : Service α} (hp : Pays owes p) :
    (once f p).Pays owes :=
  Prog.Pays.bind hp fun _ => trivial

theorem pays_write {q : Write} {f : q.Ret → Service α}
    (he : ∀ e o, ¬owes (.write q) (.error e) o)
    (hk : ∀ a o, owes (.write q) (.ok a) o → Prog.Keeps (f a) o)
    (hf : ∀ a, Pays owes (f a)) : Pays owes (write q >>= f) := by
  intro r
  cases r with
  | error e => exact ⟨fun o ho => (he e o ho).elim, trivial⟩
  | ok a => exact ⟨hk a, hf a⟩

end Service
end Mitosis
