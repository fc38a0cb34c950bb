import Mitosis.Lib.Fallible
import Mitosis.Lib.Txn

namespace Mitosis
set_option autoImplicit true

namespace Fallible
variable {C ε : Type} {Ret : C → Type} {α β : Type}

/-- `db.transaction(..)`: what `p` writes is committed, unless it fails. -/
def transaction (start commit rollback : Fallible C Ret ε Unit) (p : Fallible C Ret ε α) :
    Fallible C Ret ε α := do
  start
  match ← attempt p with
  | .ok a =>
    commit
    return a
  | .error e =>
    rollback
    fail e

variable {need : History C Ret ε → C → Prop} {K : History C Ret ε}
  {post : History C Ret ε → Except ε α → Prop}

theorem knows_issue_bind (c : C) (f : Ret c → Fallible C Ret ε α) :
    Knows need K (issue c >>= f) post ↔ need K c ∧
      (∀ a, Knows need (⟨c, .ok a⟩ :: K) (f a) post) ∧
      ∀ e, post (⟨c, .error e⟩ :: K) (.error e) := by
  rw [knows_bind, knows_issue]
  apply and_congr_right
  intro _
  exact forall_except

theorem knows_okOr_bind (e : ε) (x : Option β) (f : β → Fallible C Ret ε α) :
    Knows need K (okOr e x >>= f) post ↔
      (∀ b, x = some b → Knows need K (f b) post) ∧ (x = none → post K (.error e)) := by
  rw [knows_bind, knows_okOr]

theorem knows_ofExcept_bind (x : Except ε β) (f : β → Fallible C Ret ε α) :
    Knows need K (ofExcept x >>= f) post ↔ (∀ b, x = .ok b → Knows need K (f b) post) ∧
      ∀ e, x = .error e → post K (.error e) := by
  rw [knows_bind, knows_ofExcept]
  cases x with
  | ok b =>
    constructor
    · intro h
      constructor
      · rintro _ ⟨⟩
        exact h
      · intro e he
        cases he
    · exact fun h => h.1 b rfl
  | error e =>
    constructor
    · intro h
      constructor
      · intro b hb
        cases hb
      · rintro _ ⟨⟩
        exact h
    · exact fun h => h.2 e rfl

end Fallible

namespace Txns
open Sessions

variable {σ κ W ε ρ C K : Type} {R : C → Type} [RowWrite W σ κ]

/-- The open transactions have written what the histories of their sessions say, latest first
there. -/
structure Recorded (txn : List (Entry C R) → Option (List W)) (current : W → σ → Prop)
    (x : Txns σ W) (log : List (Sent C R K)) : Prop where
  opened : ∀ i, x.opened.find i = (txn (history i log)).map List.reverse
  guarded : x.Guarded current

namespace Recorded
variable {txn : List (Entry C R) → Option (List W)} {current : W → σ → Prop} {x x' : Txns σ W}
  {log : List (Sent C R K)} {c : C} {r : R c} {e : Entry C R}

theorem initial (db : σ) (h : txn [] = none) :
    Recorded txn current ⟨db, .empty⟩ ([] : List (Sent C R K)) := by
  constructor
  · intro i
    rw [history_nil, h]
    rfl
  · exact Guarded.initial db

/-- A command that touches the transaction of its own session only. -/
theorem concat (h : Recorded txn current x log) (hg : x'.Guarded current)
    (hne : ∀ j, j ≠ i → x'.opened.find j = x.opened.find j)
    (hi : x'.opened.find i = (txn (e :: history i log)).map List.reverse) :
    Recorded txn current x' (log ++ [⟨i, k, e⟩]) := by
  constructor
  · intro j
    by_cases hj : j = i
    · subst hj
      rw [history_concat_self]
      exact hi
    · rw [history_concat_ne _ _ _ hj, hne j hj]
      exact h.opened j
  · exact hg

theorem still (h : Recorded txn current x log)
    (ht : txn (e :: history i log) = txn (history i log)) :
    Recorded txn current x (log ++ [⟨i, k, e⟩]) := by
  apply h.concat h.guarded (fun _ _ => rfl)
  rw [ht]
  exact h.opened i

theorem start (h : Recorded txn current x log) (ht : txn (e :: history i log) = some []) :
    Recorded txn current (x.start i) (log ++ [⟨i, k, e⟩]) := by
  apply h.concat (h.guarded.start i)
  · intro j hj
    exact Table.find_set_ne _ _ hj
  · rw [ht]
    exact Table.find_set_self _ _ _

theorem rollback (h : Recorded txn current x log) (ht : txn (e :: history i log) = none) :
    Recorded txn current (x.rollback i) (log ++ [⟨i, k, e⟩]) := by
  apply h.concat (h.guarded.erase i)
  · intro j hj
    exact Table.find_erase_ne _ hj
  · rw [ht]
    exact Table.find_erase_self _ _

theorem find (h : Recorded txn current x log) (ht : txn (history i log) = some ws) :
    x.opened.find i = some ws.reverse := by rw [h.opened, ht, Option.map_some]

theorem view_none (h : Recorded txn current x log) (ht : txn (history i log) = none) :
    x.view i = x.committed := by
  rw [view, h.opened, ht]
  rfl

theorem view_some (h : Recorded txn current x log) (ht : txn (history i log) = some ws) :
    x.view i = applyAll ws.reverse x.committed := by
  rw [view, h.find ht, Option.getD_some]

variable (frame : ∀ (w w' : W) (db : σ), (∀ k ∈ RowWrite.rows w, k ∉ RowWrite.rows (κ := κ) w') →
  current w db → current w (RowWrite.apply w' db))
include frame

theorem commit (h : Recorded txn current x log) (ht : txn (e :: history i log) = none) :
    Recorded txn current (x.commit i) (log ++ [⟨i, k, e⟩]) := by
  apply h.concat (Guarded.commit frame h.guarded i)
  · intro j hj
    exact Table.find_erase_ne _ hj
  · rw [ht]
    exact Table.find_erase_self _ _

theorem write [DecidableEq κ] {ws : List W} {ks : List κ} (h : Recorded txn current x log)
    (hold : txn (history i log) = some us)
    (hnew : txn (e :: history i log) = some (ws.reverse ++ us)) (hl : x.locked i ks = false)
    (hks : ∀ w ∈ ws, ∀ k ∈ RowWrite.rows w, k ∈ ks) (hc : ∀ w ∈ ws, current w x.committed) :
    Recorded txn current (x.write i ws) (log ++ [⟨i, k, e⟩]) ∧
      (x.write i ws).committed = x.committed := by
  have hi := h.find hold
  have hw : x.write i ws = { x with opened := x.opened.set i (us.reverse ++ ws) } := by
    rw [Txns.write, hi]
  refine ⟨?_, by rw [hw]⟩
  apply h.concat (Guarded.write frame h.guarded hl hks fun _ => hc)
  · intro j hj
    rw [hw]
    exact Table.find_set_ne _ _ hj
  · rw [hw, hnew, Table.find_set_self, Option.map_some, List.reverse_append, List.reverse_reverse]

theorem writeAlone [DecidableEq κ] {ws : List W} {ks : List κ} (h : Recorded txn current x log)
    (hold : txn (history i log) = none) (hnew : txn (e :: history i log) = none)
    (hl : x.locked i ks = false) (hks : ∀ w ∈ ws, ∀ k ∈ RowWrite.rows w, k ∈ ks) :
    Recorded txn current (x.write i ws) (log ++ [⟨i, k, e⟩]) ∧
      (x.write i ws).committed = applyAll ws x.committed := by
  have hi : x.opened.find i = none := by rw [h.opened, hold, Option.map_none]
  have hw : x.write i ws = { x with committed := applyAll ws x.committed } := by
    rw [Txns.write, hi]
  refine ⟨?_, by rw [hw]⟩
  apply h.concat
  · apply Guarded.write frame h.guarded hl hks
    intro hs
    rw [hi] at hs
    cases hs
  · intro j _
    rw [hw]
  · rw [hw, hnew]
    exact hi

end Recorded
end Txns
end Mitosis
