import Mitosis.Lib.Alone
import Mitosis.Service.Attachments

namespace Mitosis
set_option autoImplicit true

namespace Storage
namespace Service

abbrev alone (i : Nat) (p : Service α) (x : Infra) : Option (Except Error α × Infra) :=
  Fallible.run (fun c x => c.exec i none x) p x

theorem alone_bind_ok {p : Service β} (h : alone i p x = some (.ok b, y)) (f : β → Service α) :
    alone i (p >>= f) x = alone i (f b) y := Fallible.run_bind_ok h f

theorem alone_bind_error {p : Service β} (h : alone i p x = some (.error e, y))
    (f : β → Service α) : alone i (p >>= f) x = some (.error e, y) := Fallible.run_bind_error h f

theorem alone_bind_cases_ok {p : Service β} {f : β → Service α}
    (h : alone i (p >>= f) x = some (.ok a, y)) :
    ∃ b z, alone i p x = some (.ok b, z) ∧ alone i (f b) z = some (.ok a, y) :=
  Fallible.run_bind_cases_ok h

theorem alone_select (q : Select) (x : Infra) :
    alone i (select q) x = some (.ok (q.eval (x.txns.view i)), x) := Fallible.run_issue _ _

theorem alone_ofExcept {e : Except Error α} (h : e = .ok a) :
    alone i (Fallible.ofExcept e) x = some (.ok a, x) := by
  rw [h]
  rfl

theorem alone_ofExcept_cases {e : Except Error α}
    (h : alone i (Fallible.ofExcept e) x = some (.ok a, y)) : e = .ok a ∧ x = y := by
  cases e with
  | error => cases h
  | ok =>
    obtain ⟨⟩ := h
    exact ⟨rfl, rfl⟩

theorem alone_checkMember (i : Nat) (x : Infra) (userId : UserId) (groupName : String) :
    (∃ e, alone i (checkMember userId groupName) x = some (.error e, x)) ∨
      alone i (checkMember userId groupName) x = some (.ok (), x) := by
  unfold checkMember
  rw [alone_bind_ok (alone_select _ x)]
  cases (Select.db (.roleByName userId groupName)).eval (x.txns.view i) with
  | none => exact .inl ⟨_, rfl⟩
  | some role => exact .inr rfl

end Service
end Storage
end Mitosis
