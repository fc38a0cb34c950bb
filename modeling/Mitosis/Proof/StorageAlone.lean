import Mitosis.Proof.Writes

namespace Mitosis
set_option autoImplicit true

namespace Storage

/-- What a command of the session `i` does while the others stand still. -/
def Cmd.alone (i : Nat) (c : Cmd) (x : Infra) (r : c.Resp) (x' : Infra) : Prop :=
  ∃ fault, c.exec i fault x = some (r, x')

/-- The open transaction of the session has written `ws`. -/
structure Within (i : Nat) (s : Store) (ws : List Write) (x : Infra) : Prop where
  opened : x.txns.opened.find i = some ws
  committed : x.txns.committed = s

theorem Within.view (h : Within i s ws x) : x.txns.view i = Txns.applyAll ws s := by
  rw [Txns.view, h.opened, h.committed, Option.getD_some]

namespace Service
open Fallible (attempt fail)

abbrev Runs (i : Nat) (p : Service α) (x : Infra) (r : Except Error α) (x' : Infra) : Prop :=
  Fallible.Runs (Cmd.alone i) p x r x'

theorem runs_select_ok {q : Select} {a : q.Ret} (h : Runs i (select q) x (.ok a) x') :
    a = q.eval (x.txns.view i) ∧ x = x' := by
  obtain ⟨fault, hx⟩ := (Fallible.runs_issue _).1 h
  cases fault with
  | some e => cases hx
  | none =>
    obtain ⟨⟩ := hx
    exact ⟨rfl, rfl⟩

theorem runs_now_ok (h : Runs i now x (.ok a) x') : a = x.clock ∧ x = x' := by
  obtain ⟨fault, hx⟩ := (Fallible.runs_issue _).1 h
  obtain ⟨⟩ := hx
  exact ⟨rfl, rfl⟩

theorem runs_presignUpload_ok (h : Runs i (issue (.presignUpload object length)) x (.ok url) x') :
    0 ≤ length ∧ url = ⟨object, length⟩ ∧ x = x' := by
  obtain ⟨fault, hx⟩ := (Fallible.runs_issue _).1 h
  cases fault with
  | some e => cases hx
  | none =>
    simp only [Cmd.exec, Cmd.uploadLink] at hx
    split at hx
    next => cases hx
    next hl =>
      obtain ⟨⟩ := hx
      exact ⟨Int.not_lt.1 hl, rfl, rfl⟩

theorem runs_update_ok {q : Update} (hw : Within i s ws x)
    (h : Runs i (update q) x (.ok u) x') :
    ∃ c, Makes x.next (Txns.applyAll ws s) q c ∧ Within i s (ws ++ [⟨q, c⟩]) x' := by
  obtain ⟨fault, hx⟩ := (Fallible.runs_issue _).1 h
  cases fault with
  | some e => cases hx
  | none =>
    obtain ⟨⟨r, txns⟩, hr, he⟩ := Option.map_eq_some_iff.1 hx
    obtain ⟨⟩ := he
    obtain ⟨-, ⟨e, he, -, -⟩ | ⟨a, new, -, hq, rfl⟩⟩ := Txns.execute_cases hr
    · cases he
    · rw [hw.view] at hq
      obtain ⟨c, rfl, -, hm⟩ := Update.makes_of_answer hq
      refine ⟨c, hm, ?_, ?_⟩
      · simp only [Txns.write, hw.opened, Table.find_set_self]
      · simp only [Txns.write, hw.opened, hw.committed]

theorem runs_transaction_ok {p : Service α}
    (h : Runs i (transaction p) x (.ok a) x') : ∃ y z, Within i x.txns.committed [] y ∧
      Runs i p y (.ok a) z ∧ x'.txns = z.txns.commit i := by
  unfold transaction at h
  obtain ⟨_, y, hs, h⟩ := (Fallible.runs_bind_ok _ _).1 h
  obtain ⟨r, z, hp, h⟩ := (Fallible.runs_bind_ok _ _).1 h
  obtain ⟨r', hp, hr⟩ := (Fallible.runs_attempt _).1 hp
  obtain ⟨⟩ := hr
  obtain ⟨fault, hx⟩ := (Fallible.runs_issue _).1 hs
  cases fault with
  | some e => cases hx
  | none =>
    obtain ⟨⟩ := hx
    cases r with
    | error e =>
      obtain ⟨_, t, -, h⟩ := (Fallible.runs_bind_ok _ _).1 h
      obtain ⟨h, -⟩ := (Fallible.runs_fail _).1 h
      cases h
    | ok b =>
      obtain ⟨_, t, hc, h⟩ := (Fallible.runs_bind_ok _ _).1 h
      obtain ⟨hab, rfl⟩ := (Fallible.runs_pure _).1 h
      obtain ⟨⟩ := hab
      obtain ⟨fault, hx⟩ := (Fallible.runs_issue _).1 hc
      cases fault with
      | some e => cases hx
      | none =>
        obtain ⟨⟩ := hx
        have hw : Within i x.txns.committed [] { x with txns := x.txns.start i } :=
          ⟨Table.find_set_self x.txns.opened i [], rfl⟩
        exact ⟨_, z, hw, hp, rfl⟩

end Service
end Storage
end Mitosis
