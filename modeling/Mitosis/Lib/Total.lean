import Mitosis.Lib.Table

namespace Mitosis
set_option autoImplicit true

namespace Table
variable {κ ρ : Type}

def total (t : Table κ ρ) (f : κ → ρ → Int) : Int := (t.rows.map fun e => f e.1 e.2).sum

theorem total_alter (t : Table κ ρ) (h : κ → ρ → Option ρ) (f : κ → ρ → Int) :
    (t.alter h).total f = t.total fun k r => (h k r).elim 0 (f k) := by
  obtain ⟨l, hl⟩ := t
  simp only [total, alter]
  clear hl
  induction l with
  | nil => rfl
  | cons e l ih =>
    cases he : h e.1 e.2 with
    | none =>
      rw [List.filterMap_cons_none (by rw [he]; rfl), ih, List.map_cons, List.sum_cons, he]
      exact (Int.zero_add _).symm
    | some r =>
      rw [List.filterMap_cons_some (by rw [he]; rfl), List.map_cons, List.sum_cons, ih,
        List.map_cons, List.sum_cons, he]
      rfl

variable [DecidableEq κ]

theorem total_congr {t : Table κ ρ} {f f' : κ → ρ → Int}
    (h : ∀ k r, t.find k = some r → f k r = f' k r) : t.total f = t.total f' := by
  unfold total
  congr 1
  apply List.map_congr_left
  intro e he
  exact h e.1 e.2 (mem_rows.1 he)

theorem total_point (t : Table κ ρ) (k : κ) {f f' : κ → ρ → Int}
    (h : ∀ k' r, k' ≠ k → f k' r = f' k' r) :
    t.total f' = t.total f + (t.find k).elim 0 fun r => f' k r - f k r := by
  obtain ⟨l, hl⟩ := t
  simp only [total, find]
  induction l with
  | nil => rfl
  | cons e l ih =>
    obtain ⟨k', r⟩ := e
    simp only [List.map_cons, List.nodup_cons] at hl
    simp only [List.map_cons, List.sum_cons, List.lookup_cons]
    by_cases hk : k = k'
    · subst hk
      have hn : l.lookup k = none := by
        apply find_none (t := ⟨l, hl.2⟩) |>.2
        exact hl.1
      have hi := ih hl.2
      rw [hn] at hi
      simp only [Option.elim_none] at hi
      rw [hi, BEq.rfl]
      simp only [Option.elim_some]
      omega
    · rw [beq_eq_false_iff_ne.2 hk, ih hl.2, h k' r (Ne.symm hk)]
      simp only [Int.add_assoc]

theorem total_update (t : Table κ ρ) (k : κ) (g : ρ → ρ) (f : κ → ρ → Int) :
    (t.update k g).total f = t.total f + (t.find k).elim 0 fun r => f k (g r) - f k r := by
  rw [update, updateWhere, total_alter, total_point t k (f := f)]
  · simp only [decide_true, if_true, Option.elim_some]
  · intro k' r hk
    simp only [hk, decide_false, Bool.false_eq_true, if_false, Option.elim_some]

theorem total_erase (t : Table κ ρ) (k : κ) (f : κ → ρ → Int) :
    (t.erase k).total f = t.total f - (t.find k).elim 0 (f k) := by
  rw [erase, deleteWhere, total_alter, total_point t k (f := f)]
  · cases t.find k with
    | none => simp only [Option.elim_none, Int.add_zero, Int.sub_zero]
    | some r =>
      simp only [decide_true, if_true, Option.elim_none, Option.elim_some]
      omega
  · intro k' r hk
    simp only [hk, decide_false, Bool.false_eq_true, if_false, Option.elim_some]

theorem total_set_new (t : Table κ ρ) (r : ρ) (f : κ → ρ → Int) (h : t.find k = none) :
    (t.set k r).total f = t.total f + f k r := by
  rw [set, dif_neg (find_none.1 h), total, total, List.map_append, List.sum_append,
    List.map_singleton, List.sum_singleton]

/-- An update keeps what does not depend on what it changes. -/
theorem map_update (t : Table κ ρ) (k : κ) {f : ρ → ρ} {g : κ × ρ → β}
    (h : ∀ k r, g (k, f r) = g (k, r)) : (t.update k f).rows.map g = t.rows.map g := by
  obtain ⟨l, hl⟩ := t
  simp only [update, updateWhere, alter, Option.map_some, List.filterMap_eq_map', List.map_map]
  apply List.map_congr_left
  intro e _
  simp only [Function.comp_apply]
  split
  · exact h e.1 e.2
  · rfl

end Table
end Mitosis
