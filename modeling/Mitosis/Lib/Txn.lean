import Mitosis.Lib.Table

namespace Mitosis
set_option autoImplicit true

/-- The rows that a write locks, and what it does to the database. -/
class RowWrite (W : Type) (σ κ : outParam Type) where
  rows : W → List κ
  apply : W → σ → σ

/-- A database whose transactions read what is committed: the writes of an open transaction
are seen by nobody else before it commits. -/
structure Txns (σ W : Type) where
  committed : σ
  opened : Table Nat (List W)

/-- What a statement does to the database that it sees: the rows that it has to lock, and its
result with its writes, or an error. -/
structure Answer (κ W ε ρ : Type) where
  waits : List κ
  result : Except ε (ρ × List W)

namespace Txns
variable {σ κ W ε ρ : Type} [RowWrite W σ κ]

def applyAll (ws : List W) (db : σ) : σ := ws.foldl (fun db w => RowWrite.apply w db) db

def view (s : Txns σ W) (i : Nat) : σ := applyAll ((s.opened.find i).getD []) s.committed

def locked [DecidableEq κ] (s : Txns σ W) (i : Nat) (ks : List κ) : Bool :=
  s.opened.rows.any fun e => e.1 ≠ i && e.2.any fun w => (RowWrite.rows w).any fun k => k ∈ ks

def start (s : Txns σ W) (i : Nat) : Txns σ W := { s with opened := s.opened.set i [] }

def commit (s : Txns σ W) (i : Nat) : Txns σ W := ⟨s.view i, s.opened.erase i⟩

def rollback (s : Txns σ W) (i : Nat) : Txns σ W := { s with opened := s.opened.erase i }

/-- Writes wait for the end of the transaction of the session, if there is one. -/
def write (s : Txns σ W) (i : Nat) (ws : List W) : Txns σ W :=
  match s.opened.find i with
  | none => { s with committed := applyAll ws s.committed }
  | some old => { s with opened := s.opened.set i (old ++ ws) }

/-- A statement of a session. It waits while one of its rows is locked by another one. -/
def execute [DecidableEq κ] (s : Txns σ W) (i : Nat) (q : σ → Answer κ W ε ρ) :
    Option (Except ε ρ × Txns σ W) :=
  if s.locked i (q (s.view i)).waits then none
  else match (q (s.view i)).result with
    | .error e => some (.error e, s)
    | .ok (r, ws) => some (.ok r, s.write i ws)

theorem locked_eq_false [DecidableEq κ] {s : Txns σ W} {ks : List κ}
    (h : s.locked i ks = false) (hij : j ≠ i) (hj : s.opened.find j = some ws) (hw : w ∈ ws)
    (hk : k ∈ RowWrite.rows w) : k ∉ ks := by
  intro hks
  have h' : s.locked i ks = true := by
    apply List.any_eq_true.2
    refine ⟨(j, ws), Table.mem_rows.2 hj, ?_⟩
    simp only [Bool.and_eq_true, decide_eq_true_eq, List.any_eq_true]
    exact ⟨hij, w, hw, k, hk, hks⟩
  rw [h] at h'
  cases h'

theorem execute_cases [DecidableEq κ] {s s' : Txns σ W} {q : σ → Answer κ W ε ρ}
    {r : Except ε ρ} (h : s.execute i q = some (r, s')) : s.locked i (q (s.view i)).waits = false ∧
      ((∃ e, r = .error e ∧ (q (s.view i)).result = .error e ∧ s' = s) ∨
        ∃ a ws, r = .ok a ∧ (q (s.view i)).result = .ok (a, ws) ∧ s' = s.write i ws) := by
  unfold execute at h
  split at h
  next => cases h
  next hl =>
    refine ⟨Bool.eq_false_iff.2 hl, ?_⟩
    split at h
    next e he =>
      obtain ⟨⟩ := h
      exact .inl ⟨e, rfl, he, rfl⟩
    next a ws ha =>
      obtain ⟨⟩ := h
      exact .inr ⟨a, ws, rfl, ha, rfl⟩

/-- The writes of open transactions are on rows of their own, and `current`: what they were made
from is still so. -/
structure Guarded (current : W → σ → Prop) (s : Txns σ W) : Prop where
  exclusive : ∀ i j ws ws' w w' k, i ≠ j → s.opened.find i = some ws →
    s.opened.find j = some ws' → w ∈ ws → w' ∈ ws' → k ∈ RowWrite.rows w →
    k ∉ RowWrite.rows (κ := κ) w'
  current : ∀ i ws w, s.opened.find i = some ws → w ∈ ws → current w s.committed

namespace Guarded
variable {current : W → σ → Prop} {s : Txns σ W}

theorem initial (db : σ) : (⟨db, .empty⟩ : Txns σ W).Guarded current := by
  constructor
  · intro i j ws ws' w w' k _ hi
    cases hi
  · intro i ws w hi
    cases hi

/-- The committed state changes, but not what the open transactions were made from. -/
theorem commits {db : σ} (h : s.Guarded current)
    (hc : ∀ i ws w, s.opened.find i = some ws → w ∈ ws → current w s.committed → current w db) :
    Guarded current { s with committed := db } := by
  constructor
  · exact h.exclusive
  · intro i ws w hi hw
    exact hc i ws w hi hw (h.current i ws w hi hw)

theorem erase (h : s.Guarded current) (i : Nat) : Guarded current (s.rollback i) := by
  have hfind : ∀ j ws, (s.rollback i).opened.find j = some ws → s.opened.find j = some ws := by
    intro j ws hj
    simp only [rollback, Table.find_erase] at hj
    split at hj
    next => cases hj
    next => exact hj
  constructor
  · intro j j' ws ws' w w' k hne hj hj'
    exact h.exclusive j j' ws ws' w w' k hne (hfind j ws hj) (hfind j' ws' hj')
  · intro j ws w hj hw
    exact h.current j ws w (hfind j ws hj) hw

theorem start (h : s.Guarded current) (i : Nat) : Guarded current (s.start i) := by
  have hfind : ∀ j ws w, (s.start i).opened.find j = some ws → w ∈ ws →
      s.opened.find j = some ws := by
    intro j ws w hj hw
    simp only [Txns.start, Table.find_set] at hj
    split at hj
    next =>
      obtain ⟨⟩ := hj
      cases hw
    next => exact hj
  constructor
  · intro j j' ws ws' w w' k hne hj hj' hw hw'
    exact h.exclusive j j' ws ws' w w' k hne (hfind j ws w hj hw) (hfind j' ws' w' hj' hw') hw hw'
  · intro j ws w hj hw
    exact h.current j ws w (hfind j ws w hj hw) hw

variable (frame : ∀ (w w' : W) (db : σ), (∀ k ∈ RowWrite.rows w, k ∉ RowWrite.rows (κ := κ) w') →
  current w db → current w (RowWrite.apply w' db))
include frame

theorem applyAll {ws : List W} (hw : ∀ w' ∈ ws, ∀ k ∈ RowWrite.rows w,
    k ∉ RowWrite.rows (κ := κ) w') (h : current w db) : current w (Txns.applyAll ws db) := by
  induction ws generalizing db with
  | nil => exact h
  | cons w' ws ih =>
    apply ih
    · intro w'' hm
      exact hw w'' (.tail _ hm)
    · exact frame w w' db (hw w' (.head _)) h

theorem commit (h : s.Guarded current) (i : Nat) : Guarded current (s.commit i) := by
  have hr := h.erase i
  apply hr.commits
  intro j ws w hj hw hc
  have hj' := hj
  simp only [rollback, Table.find_erase] at hj'
  split at hj'
  next => cases hj'
  next hne =>
    apply applyAll frame _ hc
    intro w' hw' k hk
    cases hi : s.opened.find i with
    | none =>
      rw [hi] at hw'
      cases hw'
    | some ws' =>
      rw [hi] at hw'
      exact h.exclusive j i ws ws' w w' k hne hj' hi hw hw' hk

theorem write [DecidableEq κ] {ks : List κ} {ws : List W} (h : s.Guarded current)
    (hl : s.locked i ks = false) (hks : ∀ w ∈ ws, ∀ k ∈ RowWrite.rows w, k ∈ ks)
    (hc : (s.opened.find i).isSome → ∀ w ∈ ws, current w s.committed) :
    Guarded current (s.write i ws) := by
  have hfree : ∀ j old w w', j ≠ i → s.opened.find j = some old → w ∈ old → w' ∈ ws →
      ∀ k ∈ RowWrite.rows w, k ∉ RowWrite.rows (κ := κ) w' := by
    intro j old w w' hj hold hw hw' k hk hk'
    exact locked_eq_false hl hj hold hw hk (hks w' hw' k hk')
  unfold Txns.write
  cases hi : s.opened.find i with
  | none =>
    apply h.commits
    intro j old w hj hw hcur
    apply applyAll frame _ hcur
    intro w' hw'
    apply hfree j old w w' _ hj hw hw'
    rintro rfl
    rw [hi] at hj
    cases hj
  | some old =>
    rw [hi] at hc
    have hfind : ∀ j ws', (s.opened.set i (old ++ ws)).find j = some ws' →
        j = i ∧ ws' = old ++ ws ∨ j ≠ i ∧ s.opened.find j = some ws' := by
      intro j ws' hj
      rw [Table.find_set] at hj
      split at hj
      next hji =>
        obtain ⟨⟩ := hj
        exact .inl ⟨hji, rfl⟩
      next hji => exact .inr ⟨hji, hj⟩
    constructor
    · intro j j' ws₁ ws₂ w w' k hne hj hj' hw hw' hk hk'
      rcases hfind j ws₁ hj with ⟨hji, rfl⟩ | ⟨hji, hf⟩
      · rcases hfind j' ws₂ hj' with ⟨hji', rfl⟩ | ⟨hji', hf'⟩
        · exact hne (hji.trans hji'.symm)
        · rcases List.mem_append.1 hw with hw | hw
          · exact h.exclusive i j' old ws₂ w w' k (Ne.symm hji') hi hf' hw hw' hk hk'
          · exact hfree j' ws₂ w' w hji' hf' hw' hw k hk' hk
      · rcases hfind j' ws₂ hj' with ⟨hji', rfl⟩ | ⟨hji', hf'⟩
        · rcases List.mem_append.1 hw' with hw' | hw'
          · exact h.exclusive j i ws₁ old w w' k hji hf hi hw hw' hk hk'
          · exact hfree j ws₁ w w' hji hf hw hw' k hk hk'
        · exact h.exclusive j j' ws₁ ws₂ w w' k hne hf hf' hw hw' hk hk'
    · intro j ws' w hj hw
      rcases hfind j ws' hj with ⟨rfl, rfl⟩ | ⟨hji, hj⟩
      · rcases List.mem_append.1 hw with hw | hw
        · exact h.current j old w hi hw
        · exact hc rfl w hw
      · exact h.current j ws' w hj hw

end Guarded
end Txns
end Mitosis
